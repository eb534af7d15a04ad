import MemoryPack.Reader.Checks

/-!
# A failed reader does nothing

Without exceptions a failed reader goes on being used: formatters only look at
`Failed()` in their loops. What keeps it still is that almost every operation passes
`EnsureBytes`, which refuses once an error is recorded. `HaltRun` is the invariant:
where a run stands still is where it first failed, with the error recorded there.

`Seek` does not ask. `VersionTolerantReader` seeks before and behind every member, so
a decode of a VersionTolerant type moves the cursor of a failed reader. `Still` says
that no `Seek` of the run moved a failed reader; it is what `HaltRun` needs.

The second half says what each read operation returns on a failed reader. It is not
always `T{}`: the null tests of `std::optional` and the smart pointers look at the
input, or at the zero a failed read returns, and find no null.
-/

namespace MemoryPack

open Effect

/-- Where a reader stopped, and why. -/
def MemoryPackReader.halted (r : MemoryPackReader) : Option (Nat × MemoryPackError) :=
  if r.error = .none then none else some (r.pos, r.error)

/-- The first failure of a run. -/
def firstFailure : List ReadEvent → Option (Nat × MemoryPackError)
  | [] => none
  | .failure pos code :: _ => some (pos, code)
  | _ :: l => firstFailure l

/-- No `Seek` on a failed reader moves it: it asks for the position the reader has, or
for one past the end, which is one more failure. -/
def Still (size : Nat) (l : List ReadEvent) : Prop :=
  ∀ pos target, .sought pos target true ∈ l → target = pos ∨ size < target

theorem firstFailure_append (l l' : List ReadEvent) :
    firstFailure (l ++ l') = (firstFailure l).or (firstFailure l') := by
  induction l with
  | nil => rfl
  | cons e l ih => cases e <;> simp [firstFailure, ih]

theorem firstFailure_none {l : List ReadEvent} (h : ∀ e ∈ l, ∀ pos code, e ≠ .failure pos code) :
    firstFailure l = none := by
  induction l with
  | nil => rfl
  | cons e l ih =>
      obtain ⟨he, hl⟩ := List.forall_mem_cons.mp h
      cases e with
      | failure pos code => exact absurd rfl (he pos code)
      | _ => exact ih hl

theorem ReadEvent.Free.ne_failure {e : ReadEvent} (h : e.Free) (pos : Nat)
    (code : MemoryPackError) : e ≠ .failure pos code := by
  rintro rfl
  exact h

theorem still_append {size : Nat} {l l' : List ReadEvent} (h : Still size (l ++ l')) :
    Still size l ∧ Still size l' :=
  ⟨fun p q hm => h p q (List.mem_append_left _ hm),
    fun p q hm => h p q (List.mem_append_right _ hm)⟩

theorem halted_of_none {r : MemoryPackReader} (h : r.error = .none) : r.halted = none := by
  simp [MemoryPackReader.halted, h]

theorem halted_of_failed {r : MemoryPackReader} (h : r.error ≠ .none) :
    r.halted = some (r.pos, r.error) := by
  simp [MemoryPackReader.halted, h]

/-! ## The invariant -/

structure HaltRun {α : Type} (_B : Build) (r : MemoryPackReader)
    (res : Res MemoryPackReader MemoryPackError ReadEvent α) : Prop where
  data : res.st.data = r.data
  halted : Still r.size res.log → res.st.halted = r.halted.or (firstFailure res.log)

abbrev Halting {α : Type} (m : ReadM α) : Prop := Always HaltRun m

variable {α β : Type}

theorem HaltRun.composes : Composes HaltRun HaltRun HaltRun where
  bind := by
    intro α β m f B r hm hf
    rw [Prog.bind_apply]
    rcases hres : m B r with ⟨a | e | _, r', l⟩
    · have h := hf a r' l hres
      rw [hres] at hm
      have hdata : r'.data = r.data := hm.data
      have hsize : r'.size = r.size := by rw [MemoryPackReader.size, hdata, MemoryPackReader.size]
      refine ⟨h.data.trans hdata, fun hstill => ?_⟩
      obtain ⟨hl, hl'⟩ := still_append hstill
      have hfirst : r'.halted = _ := hm.halted hl
      have hsecond := h.halted (hsize ▸ hl')
      show (f a B r').st.halted = r.halted.or (firstFailure (l ++ _))
      rw [hsecond, hfirst, firstFailure_append, Option.or_assoc]
    · rw [hres] at hm
      exact ⟨hm.data, hm.halted⟩
    · rw [hres] at hm
      exact ⟨hm.data, hm.halted⟩

/-- A run that keeps cursor and error and does not fail. -/
theorem HaltRun.same {B : Build} {r r' : MemoryPackReader} {o : Out MemoryPackError α}
    {l : List ReadEvent} (hdata : r'.data = r.data) (hpos : r'.pos = r.pos)
    (herr : r'.error = r.error) (hl : ∀ e ∈ l, ∀ pos code, e ≠ .failure pos code) :
    HaltRun B r ⟨o, r', l⟩ := by
  refine ⟨hdata, fun _ => ?_⟩
  rw [firstFailure_none hl, Option.or_none]
  simp only [MemoryPackReader.halted, hpos, herr]

/-- A run that moves a reader that has not failed. -/
theorem HaltRun.move {B : Build} {r : MemoryPackReader} (he : r.error = .none) (a : α) (pos : Nat)
    {l : List ReadEvent} (hl : ∀ e ∈ l, e.Free) :
    HaltRun B r ⟨.ret a, { r with pos := pos }, l⟩ := by
  refine ⟨rfl, fun _ => ?_⟩
  rw [firstFailure_none fun e hm => (hl e hm).ne_failure, Option.or_none, halted_of_none he,
    halted_of_none (by exact he)]

namespace Halting

theorem pure (a : α) : Halting (Pure.pure a : ReadM α) := fun _ _ => .same rfl rfl rfl (by simp)

theorem bind {m : ReadM α} {f : α → ReadM β} (hm : Halting m) (hf : ∀ a, Halting (f a)) :
    Halting (m >>= f) := by
  intro B r
  have hc := HaltRun.composes
  exact hc.bind (hm B r) fun a r' _ _ => hf a B r'

theorem closed : Prog.Closed (fun {α} => Halting (α := α)) := ⟨pure, bind⟩

theorem get : Halting (Prog.get : ReadM MemoryPackReader) := fun _ _ => .same rfl rfl rfl (by simp)

theorem tell {e : ReadEvent} (he : ∀ pos code, e ≠ .failure pos code) : Halting (Prog.tell e) :=
  fun _ _ => .same rfl rfl rfl (by simpa using he)

theorem modifyDepth {f : MemoryPackReader → MemoryPackReader}
    (hf : ∀ r, ∃ d, f r = { r with depth := d }) : Halting (Prog.modify f) := by
  intro B r
  obtain ⟨d, hd⟩ := hf r
  rw [Prog.modify_apply, hd]
  exact .same rfl rfl rfl (by simp)

/-- The failure that is recorded is the first one. -/
theorem fail {code : MemoryPackError} (hc : code ≠ .none) : Halting (Reader.fail code) := by
  intro B r
  have hrecord : (r.record code).halted =
      r.halted.or (firstFailure [.failure r.pos code]) := by
    by_cases he : r.error = .none
    · rw [halted_of_none he, halted_of_failed (Reader.record_error_ne hc)]
      simp [MemoryPackReader.record, he, firstFailure]
    · rw [halted_of_failed he, halted_of_failed (Reader.record_error_ne hc)]
      simp [MemoryPackReader.record, he]
  cases hB : B.exceptions with
  | true =>
      rw [Reader.fail_throws hB]
      exact ⟨rfl, fun _ => hrecord⟩
  | false =>
      rw [Reader.fail_returns hB]
      exact ⟨rfl, fun _ => hrecord⟩

theorem failWith {code : MemoryPackError} (hc : code ≠ .none) (a : α) :
    Halting (do Reader.fail code; return a : ReadM α) :=
  bind (fail hc) fun _ => pure a

theorem takeBytes (n : Nat) : Halting (Reader.takeBytes n) := by
  intro B r
  by_cases he : r.error = .none
  · by_cases hn : n ≤ r.remaining
    · rw [Reader.takeBytes_ok he hn]
      exact .move he _ _ (by simp [ReadEvent.Free])
    · rw [Reader.takeBytes_short he (Nat.not_le.mp hn)]
      exact failWith (by decide) none B r
  · rw [Reader.takeBytes_failed he]
    exact .same rfl rfl rfl (by simp)

theorem advance (n : Nat) : Halting (Reader.advance n) := by
  intro B r
  by_cases he : r.error = .none
  · by_cases hn : n ≤ r.remaining
    · rw [Reader.advance_ok he hn]
      exact .move he _ _ (by simp [ReadEvent.Free])
    · rw [Reader.advance_short he (Nat.not_le.mp hn)]
      exact fail (by decide) B r
  · rw [Reader.advance_failed he]
    exact .same rfl rfl rfl (by simp)

/-- The one operation that moves a failed reader. -/
theorem seek (pos : Nat) : Halting (Reader.seek pos) := by
  intro B r
  by_cases h : pos ≤ r.size
  · rw [Reader.seek_within h]
    by_cases he : r.error = .none
    · exact .move he _ _ (by simp [ReadEvent.Free])
    · have hfailed : r.failed = true := by simp [MemoryPackReader.failed, he]
      refine ⟨rfl, fun hstill => ?_⟩
      rcases hstill r.pos pos (by simp [hfailed]) with rfl | hlt
      · simp [firstFailure]
      · exact absurd h (Nat.not_le.mpr hlt)
  · have hfail := fail (by decide : MemoryPackError.bufferUnderflow ≠ .none) B r
    rw [Reader.seek_past (Nat.not_le.mp h)]
    exact ⟨hfail.data, fun hstill => hfail.halted (still_append hstill).2⟩

theorem nullTest : Halting Reader.nullCollectionTest := by
  intro B r
  by_cases h4 : 4 ≤ r.remaining
  · by_cases he : r.error = .none
    · rw [Reader.nullCollectionTest_ok he h4]
      exact .same rfl rfl rfl (by simp)
    · rw [Reader.nullCollectionTest_failed he h4]
      exact .same rfl rfl rfl (by simp)
  · rw [Reader.nullCollectionTest_short h4]
    exact .same rfl rfl rfl (by simp)

theorem hostRules : HostRules (fun {α} => Halting (α := α)) :=
  .of_host
    { closed with
      get := get
      tell := fun he => tell he.ne_failure
      fail := fail
      takeBytes := takeBytes
      advance := advance
      seek := seek }
    (fun hf _ B r => HaltRun.composes.bind (m := Prog.ask) (.same rfl rfl rfl (by simp))
      fun B' r' _ _ => hf B' B r') nullTest

/-! ## Strings and collections -/

theorem readUtf16String (units : Nat) : Halting (Reader.readUtf16String units) := by
  have hr := hostRules
  have hc := HaltRun.composes
  apply hc.checkStringLength (hr.checkStringLength _ _)
  · refine hc.sizeProduct (hr.sizeProduct _ _) fun n => ?_
    refine hc.ensureBytes (hr.ensureBytes n) ?_ (pure _)
    refine hc.tell ((tell (by simp)).from _) (hc.get get fun s => ?_)
    refine hc.tell ((tell (by simp)).from _) ?_
    rintro B r ⟨⟨hok, he, -⟩, -⟩
    have hunits := hok.present (by decide)
    obtain ⟨l, hloop, hcur⟩ := Reader.utf16Loop_ok (B := B) units [] r he (by omega)
    rw [hloop]
    exact .move he _ _ fun e hm => (hcur e hm).free
  · exact pure _

/-- The UTF-8 payload, of `ReadString` and of `ReadStringView`. -/
theorem utf8Payload {γ : Type} (byteCount : Nat) (absent : γ) (present : List UInt8 → γ) :
    Halting (do
      if !(← Reader.checkStringLength byteCount 1) then return absent
      match ← Reader.takeBytes byteCount with
      | none => return absent
      | some bs =>
          Prog.tell (.acceptedString byteCount 1)
          return present bs : ReadM γ) := by
  have hr := hostRules
  refine bind (hr.checkStringLength _ 1) fun ok => ?_
  refine Prog.Closed.ite (fun _ => pure _) fun _ => bind (takeBytes _) fun o => ?_
  cases o with
  | none => exact pure _
  | some bs => exact bind (tell (by simp)) fun _ => pure _

theorem readString : Halting Reader.readString := by
  have hr := hostRules
  refine bind (hr.readRaw 4) fun n => bind hr.failed fun b => ?_
  refine Prog.Closed.ite (fun _ => pure _) fun _ => ?_
  refine Prog.Closed.ite (fun _ => pure _) fun _ => ?_
  refine Prog.Closed.ite (fun _ => pure _) fun _ => ?_
  refine Prog.Closed.ite (fun _ => hr.map (readUtf16String _) some) fun _ => ?_
  exact bind (hr.readRaw 4) fun _ => utf8Payload _ (some []) some

theorem readStringView : Halting Reader.readStringView := by
  have hr := hostRules
  refine bind get fun s => bind (hr.readRaw 4) fun n => ?_
  refine HaltRun.composes.failed hr.failed ?_ ?_
  · rw [if_pos rfl]
    exact (pure _).from _
  rw [if_neg (by decide)]
  have ite : ∀ {c : Prop} [Decidable c] {m m' : ReadM (Option (List UInt8))},
      From HaltRun (fun r => r.error = .none) m → From HaltRun (fun r => r.error = .none) m' →
        From HaltRun (fun r => r.error = .none) (if c then m else m') := fun hm hm' =>
    Prog.Closed.ite (P := fun m => From HaltRun _ m) (fun _ => hm) fun _ => hm'
  refine ite ((pure _).from _) (ite ((pure _).from _) (ite ?_ ?_))
  · -- the rewind in front of a UTF-16 payload
    intro B r he
    exact HaltRun.move he none s.pos (by simp [ReadEvent.Free])
  · exact Always.from (bind (hr.readRaw 4) fun _ => utf8Payload _ none some) _

theorem readCollectionLength (min : Nat) : Halting (Reader.readCollectionLength min) := by
  have hr := hostRules
  refine bind (hr.readRaw 4) fun n => ?_
  refine Prog.Closed.ite (fun _ => ?_) fun _ => bind get fun r => ?_
  · exact Prog.Closed.ite (fun _ => failWith (by decide) _) fun _ => pure _
  · refine Prog.Closed.ite (fun _ => failWith (by decide) _) fun _ => ?_
    refine Prog.Closed.ite (fun _ => failWith (by decide) _) fun _ => ?_
    exact bind (tell (by simp)) fun _ => pure _

/-- A block copy stands behind a check that the reader has not failed. -/
theorem copies {w count : Nat} {m : ReadM α} (hm : Copies w count m) :
    From HaltRun (fun r => r.error = .none ∧ count * w ≤ r.remaining) m := by
  rintro B r ⟨he, hn⟩
  obtain ⟨a, pos, l, hrun, hl, -⟩ := hm B r he hn
  rw [hrun]
  exact .move he a pos hl

theorem bulk {w count : Nat} {m : ReadM α} (hm : Copies w count m) :
    From HaltRun (fun r => r.error = .none ∧ count * w ≤ r.remaining) (do
      Prog.tell (.alloc count w (← Prog.get).remaining)
      Prog.tell (.elements count)
      m : ReadM α) := by
  have hc := HaltRun.composes
  refine hc.get get fun s => hc.tell ((tell (by simp)).from _) (hc.tell ((tell (by simp)).from _) ?_)
  exact (copies hm).weaken fun r h => h.1

theorem readVector {w : Nat} (hw : 0 < w) : Halting (Reader.readVector w) := by
  have hr := hostRules
  have hc := HaltRun.composes
  refine hc.readCollectionLength (readCollectionLength w) (fun len hlen _ => ?_) (pure _)
  refine hc.sizeProduct (hr.sizeProduct _ _) fun n => ?_
  refine hc.ensureBytes (hr.ensureBytes n) ?_ (pure _)
  exact (bulk (copies_readContiguous w _)).weaken fun r h => ⟨h.2.1, h.1.2.mul_le hw⟩

theorem readVectorBool : Halting Reader.readVectorBool := by
  have hr := hostRules
  have hc := HaltRun.composes
  refine hc.readCollectionLength (readCollectionLength 1) (fun len hlen _ => ?_) (pure _)
  refine hc.ensureBytes (hr.ensureBytes _) ?_ (pure _)
  exact (bulk (copies_bytes _ _)).weaken fun r h => ⟨h.2.1, h.1.2.mul_le Nat.one_pos⟩

theorem readUnmanagedCollection {size : Nat} (hsize : 0 < size) :
    Halting (Reader.readUnmanagedCollection size) := by
  have hr := hostRules
  have hc := HaltRun.composes
  refine hc.readCollectionLength (readCollectionLength size) (fun len hlen _ => ?_) (pure _)
  refine hc.sizeProduct (hr.sizeProduct _ _) fun n => ?_
  refine hc.ensureBytes (hr.ensureBytes n) ?_ (pure _)
  exact (bulk (copies_product size _ _)).weaken fun r h => ⟨h.2.1, h.1.2.mul_le hsize⟩

theorem readArray {w : Nat} (maxCount : Int) (hw : 0 < w) :
    Halting (Reader.readArray w maxCount) := by
  have hr := hostRules
  have hc := HaltRun.composes
  rw [Reader.readArray_eq]
  refine hc.readCollectionLength (readCollectionLength w) (fun len hlen _ => ?_) (pure _)
  have hskip : ∀ k, Halting (Reader.skipElements w k) := hr.skipElements w
  refine Prog.Closed.ite (P := fun m => From HaltRun _ m) (fun _ => ?_) fun _ =>
    Always.from (bind (hskip _) fun _ => pure _) _
  refine hc.sizeProduct (hr.sizeProduct _ _) fun k => ?_
  refine hc.ensureBytes (hr.ensureBytes k) ?_ (pure _)
  have hcopy := copies (copies_readContiguous w (if len ≤ maxCount then len else maxCount).toNat)
  intro B r hr
  apply hc.bind (hcopy B r ⟨hr.2.1, ?_⟩)
  · intro stored r' _ _
    exact bind (hskip _) (fun _ => pure _) B r'
  · have hle : (if len ≤ maxCount then len else maxCount).toNat ≤ len.toNat := by
      split <;> omega
    exact (Nat.mul_le_mul_right w hle).trans (hr.1.2.mul_le hw)

theorem elements {min : Nat} {reserve counted : Bool} {element : ReadM β} {store : α → β → α}
    {a : α} (he : Halting element) :
    Halting (Reader.readElements min reserve counted element store a) := by
  have hr := hostRules
  have hbody : ∀ a, Halting (do
      let v ← element
      if counted then Prog.tell (.elements 1)
      return store a v : ReadM α) := fun a => bind he fun v =>
    Prog.Closed.ite (fun _ => bind (tell (by simp)) fun _ => pure _)
      fun _ => pure _
  refine bind (readCollectionLength min) fun len => ?_
  refine Prog.Closed.ite (fun _ => pure _) fun _ => ?_
  refine Prog.Closed.ite (fun _ => ?_) fun _ => hr.forWhile hbody _ _
  exact bind get fun _ => bind (tell (by simp)) fun _ =>
    hr.forWhile hbody _ _

theorem subReader (length : Nat) : Halting (Reader.subReader length) := by
  have hr := hostRules
  refine bind get fun s B r => HaltRun.composes.bind (hr.ensureBytes length B r) ?_
  intro ok r' l hres
  rcases Reader.ensureBytes_returns hres with ⟨rfl, he, -, rfl⟩ | ⟨rfl, -⟩
  · exact HaltRun.move he _ (r'.pos + length) (by simp [Reader.setPos, ReadEvent.Free])
  · exact pure _ B r'

/-! ## Objects -/

theorem enterObject : Halting Reader.enterObject := by
  refine bind get fun r => bind (tell (by simp)) fun _ => ?_
  refine bind (modifyDepth fun r => ⟨r.depth + 1, rfl⟩) fun _ =>
    bind get fun _ => ?_
  exact Prog.Closed.ite (fun _ => failWith (by decide) _) fun _ => pure _

theorem leaveObject : Halting Reader.leaveObject := by
  apply modifyDepth
  intro r
  split
  · exact ⟨r.depth - 1, rfl⟩
  · exact ⟨r.depth, rfl⟩

theorem objectBody {v : Val} {members : ReadM (List Val)} (hm : Halting members) :
    Halting (Reader.objectBody v members) := by
  refine bind enterObject fun ok => Prog.Closed.ite (fun _ => pure _) fun _ => ?_
  refine bind (tell (by simp)) fun _ => bind hm fun vs => ?_
  exact bind (tell (by simp)) fun _ => bind leaveObject fun _ => pure _

theorem readRules : ReadRules (fun {α} _ => Halting (α := α)) (fun _ => True) where
  pure := closed.pure
  bind := closed.bind
  weaken := fun hm _ => hm
  takeBytes := takeBytes
  readRaw := hostRules.readRaw
  failWith := fun _ a hc => failWith hc a
  advance := advance
  readString := readString
  readVector := readVector
  readVectorBool := readVectorBool
  readArray := fun {_ s} _ => readArray _ s.size_pos
  readNullableOf := fun _ _ => hostRules.readNullableOf _
  elements := fun _ he => elements he
  nullCollection := hostRules.nullCollection
  nullObject := hostRules.nullObject
  undeclaredUnion := hostRules.undeclaredUnion

theorem opRules : OpRules (fun {α} => Halting (α := α)) :=
  { hostRules with
    readCollectionLength := readCollectionLength
    readString := readString
    readStringView := readStringView
    readVector := readVector
    readVectorBool := readVectorBool
    readArray := fun n hw => readArray (asInt32 n) hw
    readNullableOf := hostRules.readNullableOf
    readUnmanagedCollection := readUnmanagedCollection
    elements := fun _ he => elements he
    subReader := subReader
    enterObject := enterObject
    leaveObject := leaveObject
    readObject := fun fuel i v => hostRules.readObject objectBody
      (fun _ _ => .same rfl rfl rfl (by simp))
      (fun hnamed _ t _ v => readRules.readTy hnamed t (fun _ _ => trivial) v) (fuel + 1) i v }

end Halting

/-! ## What a failed reader returns -/

/-- `PeekIsNull()`, which looks at the input whether or not the reader has failed. -/
def MemoryPackReader.atNull (r : MemoryPackReader) : Bool :=
  r.pos < r.size && r.rest.headD 0 = nullObject

mutual
/-- What `Read<T>()` returns on a failed reader in front of a null byte, or not. -/
def failedValue (S : Schema) (null : Bool) : Ty → Val
  | .pair a b => .pair (failedValue S null a) (failedValue S null b)
  | .optional t =>
      match wireNullEncoding t with
      | .nullableValue => .none
      | .object => if null then .none else .some (failedValue S null t)
      | _ => .some (failedValue S null t)
  | .pointer _ t => if null then .none else .some (failedValue S null t)
  -- the header of a union reads as tag 0
  | .variant tags ts => (failedAlternative S null 0 tags ts).getD (S.init (.variant tags ts))
  | t => S.init t

def failedAlternative (S : Schema) (null : Bool) : Nat → List UInt16 → List Ty → Option Val
  | i, g :: gs, t :: ts =>
      if g ≠ 0 then failedAlternative S null (i + 1) gs ts
      else some (.alt i (failedValue S null t))
  | _, _, _ => none
end

/-- `m` returns `a` and changes nothing but the depth counter of `r`. -/
def Idle (B : Build) (r : MemoryPackReader) {α : Type} (m : ReadM α) (a : α) : Prop :=
  ∀ d, ∃ d' l, m B { r with depth := d } = ⟨.ret a, { r with depth := d' }, l⟩

namespace Idle

variable {B : Build} {r : MemoryPackReader}

theorem pure (a : α) : Idle B r (Pure.pure a) a := fun d => ⟨d, [], rfl⟩

theorem bind {m : ReadM α} {f : α → ReadM β} {a : α} {b : β} (hm : Idle B r m a)
    (hf : Idle B r (f a) b) : Idle B r (m >>= f) b := by
  intro d
  obtain ⟨d₁, l₁, h₁⟩ := hm d
  obtain ⟨d₂, l₂, h₂⟩ := hf d₁
  exact ⟨d₂, l₁ ++ l₂, by rw [Prog.bind_apply, h₁, Res.bind_ret, h₂, Res.after_mk]⟩

theorem map {m : ReadM α} {a : α} (hm : Idle B r m a) (f : α → β) :
    Idle B r (do return f (← m)) (f a) :=
  hm.bind (pure (f a))

theorem tell (e : ReadEvent) : Idle B r (Prog.tell e) () := fun d => ⟨d, [e], rfl⟩

/-- The state may be looked at, as far as it does not depend on the depth counter. -/
theorem get {f : MemoryPackReader → ReadM α} {a : α}
    (hf : ∀ d, Idle B r (f { r with depth := d }) a) : Idle B r (Prog.get >>= f) a := by
  intro d
  obtain ⟨d', l, h⟩ := hf d d
  exact ⟨d', l, by rw [Prog.bind_apply, Prog.get_apply, Res.bind_ret, h]; rfl⟩

variable (hB : B.exceptions = false) (he : r.error ≠ .none)

include hB he in
theorem fail (code : MemoryPackError) : Idle B r (Reader.fail code) () := by
  intro d
  refine ⟨d, [.failure r.pos code], (Reader.fail_returns hB code).trans ?_⟩
  simp only [MemoryPackReader.record, he, if_false]

include he

theorem takeBytes (n : Nat) : Idle B r (Reader.takeBytes n) none :=
  fun d => ⟨d, [], Reader.takeBytes_failed he⟩

theorem advance (n : Nat) : Idle B r (Reader.advance n) () :=
  fun d => ⟨d, [], Reader.advance_failed he⟩

theorem readRaw (w : Nat) : Idle B r (Reader.readRaw w) 0 :=
  fun d => ⟨d, [], Reader.readRaw_failed he⟩

theorem readByte : Idle B r Reader.readByte 0 := fun d => ⟨d, [], Reader.readByte_failed he⟩

theorem failed : Idle B r Reader.failed true := by
  intro d
  exact ⟨d, [], by simp [Reader.failed, MemoryPackReader.failed, he]⟩

theorem readObjectHeader : Idle B r Reader.readObjectHeader ⟨0, false⟩ := (readByte he).bind (pure _)

theorem readUnionHeader : Idle B r Reader.readUnionHeader (some 0) := (readByte he).bind (pure _)

theorem readString : Idle B r Reader.readString (some []) :=
  (readRaw he 4).bind ((failed he).bind (pure _))

theorem readStringView : Idle B r Reader.readStringView none :=
  get fun _ => (readRaw he 4).bind ((failed he).bind (pure _))

theorem readCollectionLength (min : Nat) : Idle B r (Reader.readCollectionLength min) 0 := by
  rw [Reader.readCollectionLength_eq]
  refine (readRaw he 4).bind fun d => ⟨d, [.acceptedLength 0], ?_⟩
  have hok : Reader.LengthOk min (asInt32 (0 : Nat)) { r with depth := d } :=
    ⟨by decide, Nat.zero_le _, fun _ => Nat.zero_le _⟩
  exact Reader.checkLength_ok hok

/-- A collection of length zero: nothing behind the length runs. -/
theorem empty {min : Nat} {a : α} {f : Int → ReadM α} : Idle B r (do
    let len ← Reader.readCollectionLength min
    if len ≤ 0 then return a
    f len) a :=
  (readCollectionLength he min).bind (pure a)

theorem readVector (w : Nat) : Idle B r (Reader.readVector w) [] := empty he

theorem readVectorBool : Idle B r Reader.readVectorBool [] := empty he

theorem readUnmanagedCollection (size : Nat) :
    Idle B r (Reader.readUnmanagedCollection size) [] := empty he

theorem readArray (w : Nat) (maxCount : Int) : Idle B r (Reader.readArray w maxCount) [] := empty he

theorem readElements {min : Nat} {reserve counted : Bool} {element : ReadM β} {store : α → β → α}
    (a : α) : Idle B r (Reader.readElements min reserve counted element store a) a := empty he

theorem readScalar (s : Scalar) : Idle B r (Reader.readScalar s) 0 := by
  cases s with
  | bool => exact (readByte he).map _
  | float => exact readRaw he 4
  | double => exact readRaw he 8
  | int signed w =>
      cases w with
      | w1 => exact (readByte he).map UInt8.toNat
      | w2 => exact readRaw he 2
      | w4 => exact readRaw he 4
      | w8 => exact readRaw he 8
  | enum signed w => exact readRaw he _

theorem readUInt8s : ∀ n, Idle B r (Reader.readUInt8s n) (List.replicate n 0)
  | 0 => pure _
  | n + 1 => (readByte he).bind ((readUInt8s n).map (0 :: ·))

theorem dotNetDeserialize (d : DotNet) : Idle B r (Reader.dotNetDeserialize d) d.init := by
  have pair : ∀ {m m' : ReadM Nat}, Idle B r m 0 → Idle B r m' 0 →
      Idle B r (do let x ← m; let y ← m'; return Val.pair (.scalar x) (.scalar y))
        (Val.pair (.scalar 0) (.scalar 0)) :=
    fun hm hm' => hm.bind (hm'.map fun y => Val.pair (.scalar 0) (.scalar y))
  cases d with
  | guid =>
      exact (readRaw he 4).bind ((readRaw he 2).bind ((readRaw he 2).bind
        ((readUInt8s he 8).map fun bs => Val.seq [.scalar 0, .scalar 0, .scalar 0, .bytes bs])))
  | dateTime => exact (readRaw he 8).map Val.scalar
  | timeSpan => exact (readRaw he 8).map Val.scalar
  | dateTimeOffset =>
      exact (readRaw he 2).bind ((advance he 6).bind
        ((readRaw he 8).map fun y => Val.pair (.scalar 0) (.scalar y)))
  | decimal => exact (readUInt8s he 16).map Val.bytes
  | half => exact (readRaw he 2).map Val.scalar
  | int128 => exact pair (readRaw he 8) (readRaw he 8)
  | uint128 => exact pair (readRaw he 8) (readRaw he 8)

theorem readCollection (t : Ty) (element : ReadM Val) :
    Idle B r (Reader.readCollection t element) [] := by
  unfold Reader.readCollection
  split
  · exact (readVectorBool he).map (List.map Val.scalar)
  · next s _ =>
      split
      · exact (readVector he s.size).map (List.map Val.scalar)
      · exact readElements he []
  · exact readElements he []

theorem arrayDeserialize (S : Schema) (n : Nat) (t : Ty) (element : ReadM Val) :
    Idle B r (Reader.arrayDeserialize S n t element) (List.replicate n (S.init t)) := by
  have generic : Idle B r (do
      return (← Reader.readElements 1 false false element (Reader.storeAt n)
        (0, List.replicate n (S.init t))).2) (List.replicate n (S.init t)) :=
    (readElements he _).map Prod.snd
  unfold Reader.arrayDeserialize
  split
  · next s =>
      split
      · exact (readArray he s.size _).map fun ns =>
          ns.map Val.scalar ++ (List.replicate n (S.init (.scalar s))).drop (ns.map Val.scalar).length
      · exact generic
  · exact generic

omit he in
theorem peekIsNull : Idle B r Reader.peekIsNull r.atNull := by
  intro d
  by_cases h1 : 1 ≤ r.remaining
  · have hlt : r.pos < r.size := by
      have : 1 ≤ r.size - r.pos := h1
      omega
    refine ⟨d, [.access r.pos 1], (Reader.peekIsNull_ok (r := { r with depth := d }) h1).trans ?_⟩
    simp only [MemoryPackReader.atNull, hlt, decide_true, Bool.true_and]
    rfl
  · have hge : ¬ r.pos < r.size := by
      have : ¬ 1 ≤ r.size - r.pos := h1
      omega
    refine ⟨d, [], (Reader.peekIsNull_end (r := { r with depth := d }) h1).trans ?_⟩
    simp [MemoryPackReader.atNull, hge]

theorem nullObject {payload : ReadM Val} {v : Val} (hp : Idle B r payload v) :
    Idle B r (Reader.nullObjectDeserialize payload) (if r.atNull then .none else .some v) := by
  refine peekIsNull.bind ?_
  cases r.atNull with
  | true => exact (readByte he).bind (pure Val.none)
  | false => exact hp.map Val.some

theorem nullCollection {payload : ReadM Val} {v : Val} (hp : Idle B r payload v) :
    Idle B r (Reader.nullCollectionDeserialize payload) (.some v) := by
  have test : Idle B r Reader.nullCollectionTest false := by
    intro d
    by_cases h4 : 4 ≤ r.remaining
    · exact ⟨d, [], Reader.nullCollectionTest_failed he h4⟩
    · exact ⟨d, [], Reader.nullCollectionTest_short h4⟩
  rw [Reader.nullCollectionDeserialize_eq]
  exact test.bind (hp.map Val.some)

theorem readNullableOf (t : Ty) : Idle B r (Reader.readNullableOf t) .none := by
  have nullable : ∀ align size, Idle B r (Reader.readNullable align size) none := fun _ _ =>
    (takeBytes he _).bind (pure none)
  cases t with
  | scalar s => exact (nullable s.size s.size).bind (pure _)
  | unmanaged u => exact (nullable u.align u.size).bind (pure _)
  | _ => exact pure _

theorem optionalDeserialize {S : Schema} {t : Ty} {payload : ReadM Val}
    (hp : Idle B r payload (failedValue S r.atNull t)) :
    Idle B r (Reader.optionalDeserialize t payload) (failedValue S r.atNull (.optional t)) := by
  rw [failedValue]
  cases t with
  | scalar s => exact readNullableOf he (.scalar s)
  | unmanaged u => exact readNullableOf he (.unmanaged u)
  | string => exact (readString he).bind (pure (Val.some (.bytes [])))
  | u16string => exact nullCollection he hp
  | vector t => exact nullCollection he hp
  | sequence k t => exact nullCollection he hp
  | set o t => exact nullCollection he hp
  | map o k t => exact nullCollection he hp
  | _ => exact nullObject he hp

omit he in
/-- A count of zero: no item is read. -/
theorem readItems {S : Schema} {named : Nat → Val → ReadM Val} :
    ∀ (ts : List Ty) (i : Nat), Idle B r (Reader.readItems S named 0 i ts) (S.inits ts)
  | [], i => by
      rw [Reader.readItems, Schema.inits]
      exact pure _
  | t :: ts, i => by
      rw [Reader.readItems, Schema.inits]
      exact (pure _).bind ((readItems ts (i + 1)).map (S.init t :: ·))

omit he in
theorem readAlternative {S : Schema} {named : Nat → Val → ReadM Val} :
    ∀ (tags : List UInt16) (ts : List Ty) (i : Nat),
      (∀ t ∈ ts, Idle B r (Reader.readTy S named t (S.init t)) (failedValue S r.atNull t)) →
      Idle B r (Reader.readAlternative S named 0 i tags ts) (failedAlternative S r.atNull i tags ts)
  | [], ts, i, _ => by
      rw [Reader.readAlternative, failedAlternative]
      · exact pure _
      · simp
      · simp
  | g :: gs, [], i, _ => by
      rw [Reader.readAlternative, failedAlternative]
      · exact pure _
      · simp
      · simp
  | g :: gs, t :: ts, i, hread => by
      obtain ⟨ht, hts⟩ := List.forall_mem_cons.mp hread
      rw [Reader.readAlternative, failedAlternative]
      by_cases hg : g = 0
      · rw [if_neg (not_not.mpr hg), if_neg (not_not.mpr hg)]
        exact ht.map fun v => some (Val.alt i v)
      · rw [if_pos hg, if_pos hg]
        exact readAlternative gs ts (i + 1) hts

/-- `Read<T>()` on a failed reader, for every type. The induction is on the type; no
user type reads a member. -/
theorem readTy {S : Schema} {named : Nat → Val → ReadM Val}
    (hnamed : ∀ i, Idle B r (named i (S.init (.object i))) (S.init (.object i))) (t : Ty) :
    Idle B r (Reader.readTy S named t (S.init t)) (failedValue S r.atNull t) := by
  induction t with
  | scalar s => exact (readScalar he s).map Val.scalar
  | string => exact (readString he).map fun o => Val.bytes (o.getD [])
  | u16string => exact (readString he).map fun o => Val.units (utf8ToUtf16 (o.getD []))
  | vector t ih => exact (readCollection he t _).map Val.seq
  | sequence k t ih => exact (readElements he []).map Val.seq
  | array n t ih => exact (arrayDeserialize he S n t _).map Val.seq
  | set o t ih => exact (readElements he []).map Val.seq
  | map o k t ihk iht => exact (readElements he []).map Val.seq
  | pair a b iha ihb => exact iha.bind (ihb.map fun y => Val.pair (failedValue S r.atNull a) y)
  | tuple ts ih => exact (readObjectHeader he).bind ((readItems ts 0).map Val.seq)
  | optional t ih => exact optionalDeserialize he ih
  | pointer p t ih => exact nullObject he ih
  | variant tags ts ih =>
      rw [Reader.readTy, failedValue]
      refine (readUnionHeader he).bind ((readAlternative tags ts 0 ih).bind ?_)
      cases failedAlternative S r.atNull 0 tags ts with
      | some w => exact pure w
      | none =>
          refine (tell _).bind (get fun d => (advance he _).bind ((tell _).bind ?_))
          exact pure _
  | dotNet d => exact dotNetDeserialize he d
  | unmanaged u => exact ((takeBytes he u.size).bind (pure u.init)).map Val.bytes
  | object i => exact hnamed i

/-! ### User types -/

omit he in
/-- A count of zero: every member is kept. -/
theorem readMembers {S : Schema} {read : Ty → Val → ReadM Val} :
    ∀ (ts : List Ty) (index : Nat) (vs : List Val), vs.length = ts.length →
      Idle B r (Reader.readMembers S read 0 index ts vs) vs
  | [], _, [], _ => pure _
  | t :: ts, index, v :: vs, hlen => by
      have hrest : Idle B r (Reader.readMembers S read 0 (index + 1) ts vs) vs :=
        readMembers ts (index + 1) vs (by simpa using hlen)
      exact (tell (.kept v)).bind ((pure v).bind (hrest.map (v :: ·)))

include hB in
theorem objectBody {v : Val} {vs : List Val} {members : ReadM (List Val)} (hv : v = .seq vs)
    (hm : Idle B r members vs) : Idle B r (Reader.objectBody v members) v := by
  intro d
  by_cases hdeep : d + 1 > r.options.maxDepth
  · obtain ⟨d', l, hfail⟩ := (fail hB he .lengthLimit).bind (f := fun _ => Pure.pure v) (pure v)
      (d + 1)
    refine ⟨d', .entering d :: l, ?_⟩
    rw [Reader.objectBody_deep hdeep]
    exact congrArg (Res.after [.entering d]) hfail
  · obtain ⟨d', l, hrun⟩ := hm (d + 1)
    refine ⟨if d' > 0 then d' - 1 else d', .entering d :: .enterBody :: (l ++ [.leaveBody]), ?_⟩
    rw [Reader.objectBody_open hdeep]
    have hentered : ({ r with depth := d } : MemoryPackReader).entered =
        { r with depth := d + 1 } := rfl
    rw [hentered, hrun, hv]
    simp only [Res.bind_ret, Res.after_mk, MemoryPackReader.left]
    split <;> rfl

omit he in
/-- A table of no members: `ReadMember` reports that the sender did not write one. -/
theorem versionTolerantMembers {S : Schema} {read : Ty → Val → ReadM Val}
    {vt : VersionTolerantReader} (hcount : vt.count = 0) :
    ∀ (ts : List Ty) (vs : List Val), vs.length = ts.length →
      Idle B r (VersionTolerantReader.readMembers S read ts vs vt) (vs, vt)
  | [], [], _ => pure _
  | t :: ts, v :: vs, hlen => by
      have hmember : Idle B r (vt.readMember (read t) v) (false, v, vt) := by
        rw [VersionTolerantReader.readMember, if_pos (.inr (by rw [hcount]; exact Nat.zero_le _))]
        exact pure _
      have hrest : Idle B r (VersionTolerantReader.readMembers S read ts vs vt) (vs, vt) :=
        versionTolerantMembers hcount ts vs (by simpa using hlen)
      exact hmember.bind ((tell (.kept v)).bind (hrest.map fun x => (v :: x.1, x.2)))

include hB in
/-- `Seek` to where the reader already is. -/
theorem seekHere : Idle B r (Reader.seek r.pos) () := by
  intro d
  by_cases h : r.pos ≤ r.size
  · exact ⟨d, _, Reader.seek_within (r := { r with depth := d }) h⟩
  · obtain ⟨d', l, hfail⟩ := fail hB he .bufferUnderflow d
    refine ⟨d', .sought r.pos r.pos ({ r with depth := d } : MemoryPackReader).failed :: l, ?_⟩
    rw [Reader.seek_past (r := { r with depth := d }) (Nat.not_le.mp h), hfail]
    rfl

include hB in
theorem versionTolerant {S : Schema} {read : Ty → Val → ReadM Val} {i : Nat} {vs : List Val}
    (hlen : vs.length = (S.decl i).members.length) :
    Idle B r (VersionTolerantReader.deserialize S read i (.seq vs)) (.seq vs) := by
  have hconstruct : Idle B r VersionTolerantReader.construct { next := r.pos } :=
    (readObjectHeader he).bind ((pure []).bind (get fun _ => pure _))
  have hfinish : Idle B r (VersionTolerantReader.finish { next := r.pos })
      { next := r.pos } :=
    (pure _).bind ((seekHere hB he).bind (pure _))
  refine hconstruct.bind ?_
  exact (versionTolerantMembers rfl _ vs hlen).bind (hfinish.bind (pure _))

include hB in
/-- No user type reads a member: the header of a failed reader says that there is
none. -/
theorem readObject {S : Schema} (fuel i : Nat) :
    Idle B r (Reader.readObject S (fuel + 1) i (S.init (.object i))) (S.init (.object i)) := by
  have hlen := (S.decl i).length_init
  have hinit : S.init (.object i) = .seq (S.decl i).init := by rw [Schema.init]
  rw [Reader.readObject, hinit]
  split
  · refine (readObjectHeader he).bind ?_
    exact objectBody hB he rfl (readMembers _ 0 _ hlen)
  · exact (readObjectHeader he).bind ((tell _).bind (pure _))
  · exact versionTolerant hB he hlen

include hB in
theorem read (S : Schema) (t : Ty) :
    Idle B r (Reader.read S t (S.init t)) (failedValue S r.atNull t) :=
  get fun _ => readTy he (readObject hB he _) t

end Idle

end MemoryPack
