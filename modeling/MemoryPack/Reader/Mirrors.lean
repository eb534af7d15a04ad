import MemoryPack.Reader.Builds
import MemoryPack.Reader.Limits

/-!
# Readers that do not count their depth

A user type may read its members without `EnterObject` and `LeaveObject`. Such a reader sees
no depth limit, and otherwise it is the reader that counts: `Mirrors m m'` says that `m'`
runs as `m` does, whatever the depth it starts at, as long as `m` does not go deeper than
its limit. Where `m` does, it fails.

`m` and `m'` differ at the user types only. Everything else is one program on both sides,
which never looks at the depth.
-/

namespace MemoryPack

open Effect

/-- An object that may be entered under `o`. -/
def ReadEvent.Shallow (o : ReaderOptions) : ReadEvent → Prop
  | .entering depth => depth + 1 ≤ o.maxDepth
  | _ => True

/-- The same reader at another depth, with another limit for it. -/
def MemoryPackReader.nested (r : MemoryPackReader) (d k : UInt32) : MemoryPackReader :=
  { r with depth := d, options := { r.options with maxDepth := k } }

theorem MemoryPackReader.left_nested (r : MemoryPackReader) (d k : UInt32) :
    r.left.nested d k = r.nested d k := by
  unfold left
  split <;> rfl

/-- `y` is the run `x` from `r` without a depth limit. -/
structure MirrorRun (d k : UInt32) (r : MemoryPackReader) {α : Type}
    (x y : Res MemoryPackReader MemoryPackError ReadEvent α) : Prop where
  options : x.st.options = r.options
  failed : r.error ≠ .none → x.st.error ≠ .none
  deep : (∃ e ∈ x.log, ¬ e.Shallow r.options) → x.st.error ≠ .none
  same : (∀ e ∈ x.log, e.Shallow r.options) → y.out = x.out ∧ y.st = x.st.nested d k

/-- `m'` does what `m` does wherever the depth limit does not stop `m`. -/
def Mirrors {α : Type} (m m' : ReadM α) : Prop :=
  ∀ (B : Build) (r : MemoryPackReader) (d k : UInt32),
    MirrorRun d k r (m B r) (m' B (r.nested d k))

namespace MirrorRun

variable {α : Type} {d k : UInt32} {r s : MemoryPackReader} {l l' : List ReadEvent}

/-- A step that enters no object. -/
theorem step {out : Out MemoryPackError α} (ho : s.options = r.options)
    (he : r.error ≠ .none → s.error ≠ .none) (hl : ∀ e ∈ l, e.Shallow r.options) :
    MirrorRun d k r ⟨out, s, l⟩ ⟨out, s.nested d k, l'⟩ := by
  refine ⟨ho, he, ?_, fun _ => ⟨rfl, rfl⟩⟩
  rintro ⟨e, hmem, hdeep⟩
  exact absurd (hl e hmem) hdeep

/-- Events in front, and a depth of its own. -/
theorem after {x y : Res MemoryPackReader MemoryPackError ReadEvent α} (h : MirrorRun d k s x y)
    (ho : s.options = r.options) (he : r.error = s.error) (hl : ∀ e ∈ l, e.Shallow r.options) :
    MirrorRun d k r (x.after l) y := by
  refine ⟨h.options.trans ho, fun h' => h.failed (he ▸ h'), ?_, fun hall => ?_⟩
  · rintro ⟨e, hmem, hdeep⟩
    rcases List.mem_append.mp hmem with h' | h'
    · exact absurd (hl e h') hdeep
    · exact h.deep ⟨e, h', ho ▸ hdeep⟩
  · have hall' := (List.forall_mem_append.mp hall).2
    exact h.same (ho ▸ hall')

end MirrorRun

namespace Mirrors

variable {α β : Type}

/-! ## Sequencing -/

theorem pure (a : α) : Mirrors (Pure.pure a : ReadM α) (Pure.pure a) := fun _ _ _ _ =>
  .step rfl id (by simp)

theorem bind {m m' : ReadM α} {f f' : α → ReadM β} (hm : Mirrors m m')
    (hf : ∀ a, Mirrors (f a) (f' a)) : Mirrors (m >>= f) (m' >>= f') := by
  intro B r d k
  have hfirst := hm B r d k
  rw [Prog.bind_apply, Prog.bind_apply]
  rcases hx : m B r with ⟨out, s, l⟩
  rcases hy : m' B (r.nested d k) with ⟨out', s', l'⟩
  rw [hx, hy] at hfirst
  have hs : s.options = r.options := hfirst.options
  cases out with
  | ret a =>
      have hrest := hf a B s d k
      refine ⟨hrest.options.trans hs, fun he => hrest.failed (hfirst.failed he), ?_, fun hall => ?_⟩
      · rintro ⟨e, hmem, hdeep⟩
        rcases List.mem_append.mp hmem with h | h
        · exact hrest.failed (hfirst.deep ⟨e, h, hdeep⟩)
        · exact hrest.deep ⟨e, h, hs ▸ hdeep⟩
      · obtain ⟨hl, hl'⟩ := List.forall_mem_append.mp hall
        obtain ⟨rfl, rfl⟩ := hfirst.same hl
        exact hrest.same (hs ▸ hl')
  | throw c =>
      refine ⟨hfirst.options, hfirst.failed, hfirst.deep, fun hall => ?_⟩
      obtain ⟨rfl, rfl⟩ := hfirst.same hall
      exact ⟨rfl, rfl⟩
  | diverge =>
      refine ⟨hfirst.options, hfirst.failed, hfirst.deep, fun hall => ?_⟩
      obtain ⟨rfl, rfl⟩ := hfirst.same hall
      exact ⟨rfl, rfl⟩

theorem map {m m' : ReadM α} (hm : Mirrors m m') (f : α → β) :
    Mirrors (do return f (← m) : ReadM β) (do return f (← m')) :=
  hm.bind fun a => pure (f a)

theorem ite {c : Prop} [Decidable c] {m m' n n' : ReadM α} (hm : c → Mirrors m m')
    (hn : ¬ c → Mirrors n n') : Mirrors (if c then m else n) (if c then m' else n') := by
  by_cases h : c
  · rw [if_pos h, if_pos h]
    exact hm h
  · rw [if_neg h, if_neg h]
    exact hn h

/-- Any event but an object that is entered; the other side need not report it. -/
theorem tell {e : ReadEvent} (h : ∀ o, e.Shallow o) : Mirrors (Prog.tell e) (Prog.tell e) :=
  fun _ r _ _ => .step rfl id (by simpa using h r.options)

/-- An event of one side. -/
theorem told {e : ReadEvent} {m m' : ReadM α} (h : ∀ o, e.Shallow o) (hm : Mirrors m m') :
    Mirrors (do Prog.tell e; m : ReadM α) m' := fun B r d k =>
  (hm B r d k).after rfl rfl (by simpa using h r.options)

/-- A look at the reader that does not see the depth and its limit. -/
theorem get {f f' : MemoryPackReader → ReadM α} (hf : ∀ r, Mirrors (f r) (f' r))
    (hblind : ∀ r d k, f' (r.nested d k) = f' r) : Mirrors (Prog.get >>= f) (Prog.get >>= f') := by
  intro B r d k
  have h := hf r B r d k
  rw [← hblind r d k] at h
  simpa using h

theorem host {f f' : Build → ReadM α} (hf : ∀ B, Mirrors (f B) (f' B)) :
    Mirrors (Prog.ask >>= f) (Prog.ask >>= f') := fun B r d k => by
  simpa using hf B B r d k

theorem diverge : Mirrors (Prog.diverge : ReadM α) Prog.diverge := fun _ _ _ _ =>
  .step rfl id (by simp)

theorem forWhile {body body' : α → ReadM α} (hbody : ∀ a, Mirrors (body a) (body' a)) :
    ∀ (n : Nat) (a : α), Mirrors (Prog.forWhile MemoryPackReader.failed body n a)
      (Prog.forWhile MemoryPackReader.failed body' n a)
  | 0, a => pure a
  | n + 1, a => by
      rw [Prog.forWhile, Prog.forWhile]
      refine get (fun r => ite (fun _ => pure a) fun _ => ?_) fun r _ _ => rfl
      exact (hbody a).bind fun a' => forWhile hbody n a'

/-! ## The cursor -/

theorem fail {code : MemoryPackError} (hc : code ≠ .none) :
    Mirrors (Reader.fail code) (Reader.fail code) := by
  intro B r d k
  have hrecord : (r.nested d k).record code = (r.record code).nested d k := rfl
  have herror := Reader.record_error_ne (r := r) hc
  have hshallow : ∀ e ∈ [ReadEvent.failure r.pos code], e.Shallow r.options := by
    simp [ReadEvent.Shallow]
  cases hB : B.exceptions with
  | true =>
      rw [Reader.fail_throws hB, Reader.fail_throws hB, hrecord]
      exact .step rfl (fun _ => herror) hshallow
  | false =>
      rw [Reader.fail_returns hB, Reader.fail_returns hB, hrecord]
      exact .step rfl (fun _ => herror) hshallow

theorem failWith {code : MemoryPackError} (hc : code ≠ .none) (a : α) :
    Mirrors (do Reader.fail code; return a : ReadM α) (do Reader.fail code; return a) :=
  (fail hc).bind fun _ => pure a

theorem setPos (pos : Nat) : Mirrors (Reader.setPos pos) (Reader.setPos pos) := fun _ _ _ _ =>
  .step rfl id (by simp [ReadEvent.Shallow])

theorem failed : Mirrors Reader.failed Reader.failed := get (fun _ => pure _) fun _ _ _ => rfl

theorem ensureBytes (n : Nat) : Mirrors (Reader.ensureBytes n) (Reader.ensureBytes n) := by
  apply get
  · intro r
    refine ite (fun _ => pure _) fun _ => ?_
    exact ite (fun _ => failWith (by decide) _) fun _ => pure _
  · intro r d k
    rfl

theorem copy (n : Nat) : Mirrors (Reader.copy n) (Reader.copy n) :=
  get (fun _ => bind (tell fun _ => trivial) fun _ => pure _) fun _ _ _ => rfl

theorem bump (n : Nat) : Mirrors (Reader.bump n) (Reader.bump n) :=
  get (fun _ => setPos _) fun _ _ _ => rfl

theorem takeBytes (n : Nat) : Mirrors (Reader.takeBytes n) (Reader.takeBytes n) := by
  refine (ensureBytes n).bind fun ok => ite (fun _ => pure _) fun _ => ?_
  exact (copy n).bind fun _ => (bump n).bind fun _ => pure _

theorem advance (n : Nat) : Mirrors (Reader.advance n) (Reader.advance n) :=
  (ensureBytes n).bind fun _ => ite (fun _ => bump n) fun _ => pure _

theorem seek (pos : Nat) : Mirrors (Reader.seek pos) (Reader.seek pos) := by
  apply get
  · intro r
    refine bind (tell fun _ => trivial) fun _ => ?_
    exact ite (fun _ => fail (by decide)) fun _ => setPos pos
  · intro r d k
    rfl

theorem readByte : Mirrors Reader.readByte Reader.readByte := by
  refine (takeBytes 1).bind fun bs => ?_
  cases bs <;> exact pure _

theorem readRaw (w : Nat) : Mirrors (Reader.readRaw w) (Reader.readRaw w) := by
  refine (takeBytes w).bind fun bs => ?_
  cases bs with
  | none => exact pure _
  | some bs => exact host fun B => pure _

theorem sizeProduct (a b : Nat) : Mirrors (Reader.sizeProduct a b) (Reader.sizeProduct a b) :=
  bind (tell fun _ => trivial) fun _ => host fun _ => pure _

/-! ## Strings -/

theorem checkStringLength (n unitSize : Nat) :
    Mirrors (Reader.checkStringLength n unitSize) (Reader.checkStringLength n unitSize) := by
  apply get
  · intro r
    refine ite (fun _ => failWith (by decide) _) fun _ => ?_
    exact ite (fun _ => failWith (by decide) _) fun _ => pure _
  · intro r d k
    rfl

theorem utf16Loop (left : Nat) (out : List UInt8) :
    Mirrors (Reader.utf16Loop left out) (Reader.utf16Loop left out) := by
  match left with
  | 0 =>
      rw [Reader.utf16Loop]
      exact pure _
  | left + 1 =>
      rw [Reader.utf16Loop]
      refine (readRaw 2).bind fun hi => ite (fun _ => ?_) fun _ =>
        ite (fun _ => utf16Loop left _) fun _ => utf16Loop left _
      match left with
      | 0 => exact pure _
      | left' + 1 =>
          refine (readRaw 2).bind fun lo => ite (fun _ => utf16Loop left' _) fun _ => ?_
          apply get
          · intro r
            exact (setPos _).bind fun _ => utf16Loop (left' + 1) _
          · intro r d k
            rfl

theorem readUtf16String (units : Nat) :
    Mirrors (Reader.readUtf16String units) (Reader.readUtf16String units) := by
  refine (checkStringLength units 2).bind fun ok => ite (fun _ => pure _) fun _ => ?_
  refine (sizeProduct units 2).bind fun bytes => (ensureBytes bytes).bind fun ok => ?_
  refine ite (fun _ => pure _) fun _ => bind (tell fun _ => trivial) fun _ => ?_
  refine get (fun r => ?_) fun r _ _ => rfl
  exact bind (tell fun _ => trivial) fun _ => utf16Loop units []

theorem readString : Mirrors Reader.readString Reader.readString := by
  refine (readRaw 4).bind fun n => failed.bind fun b => ?_
  refine ite (fun _ => pure _) fun _ => ite (fun _ => pure _) fun _ => ?_
  refine ite (fun _ => pure _) fun _ => ite (fun _ => (readUtf16String _).map some) fun _ => ?_
  refine (readRaw 4).bind fun _ => (checkStringLength _ 1).bind fun ok => ?_
  refine ite (fun _ => pure _) fun _ => (takeBytes _).bind fun bs => ?_
  cases bs with
  | none => exact pure _
  | some bs => exact bind (tell fun _ => trivial) fun _ => pure _

/-! ## Collections -/

theorem readCollectionLength (min : Nat) :
    Mirrors (Reader.readCollectionLength min) (Reader.readCollectionLength min) := by
  refine (readRaw 4).bind fun n => ite (fun _ => ?_) fun _ => get (fun r => ?_) fun r _ _ => rfl
  · exact ite (fun _ => failWith (by decide) _) fun _ => pure _
  · refine ite (fun _ => failWith (by decide) _) fun _ => ?_
    refine ite (fun _ => failWith (by decide) _) fun _ => ?_
    exact bind (tell fun _ => trivial) fun _ => pure _

theorem readRaws (w : Nat) : ∀ count, Mirrors (Reader.readRaws w count) (Reader.readRaws w count)
  | 0 => pure _
  | count + 1 => (readRaw w).bind fun n => (readRaws w count).map (n :: ·)

theorem readContiguous (w count : Nat) :
    Mirrors (Reader.readContiguous w count) (Reader.readContiguous w count) := by
  refine host fun B => ite (fun _ => ?_) fun _ => readRaws w count
  refine (sizeProduct count w).bind fun bytes => (copy bytes).bind fun bs => ?_
  exact (bump bytes).bind fun _ => pure _

theorem skipElements (w : Nat) (skipCount : Int) :
    Mirrors (Reader.skipElements w skipCount) (Reader.skipElements w skipCount) := by
  refine ite (fun _ => (sizeProduct _ w).bind fun bytes => ?_) fun _ => pure _
  exact advance bytes

theorem readArray (w : Nat) (maxCount : Int) :
    Mirrors (Reader.readArray w maxCount) (Reader.readArray w maxCount) := by
  refine (readCollectionLength w).bind fun len => ite (fun _ => pure _) fun _ => ?_
  refine ite (fun _ => ?_) fun _ => (skipElements w _).bind fun _ => pure _
  refine (sizeProduct _ w).bind fun bytes => (ensureBytes bytes).bind fun ok => ?_
  refine ite (fun _ => pure _) fun _ => (readContiguous w _).bind fun _ => ?_
  exact (skipElements w _).bind fun _ => pure _

theorem readVector (w : Nat) : Mirrors (Reader.readVector w) (Reader.readVector w) := by
  refine (readCollectionLength w).bind fun len => ite (fun _ => pure _) fun _ => ?_
  refine (sizeProduct _ w).bind fun bytes => (ensureBytes bytes).bind fun ok => ?_
  refine ite (fun _ => pure _) fun _ => get (fun r => ?_) fun r _ _ => rfl
  exact bind (tell fun _ => trivial) fun _ => bind (tell fun _ => trivial) fun _ =>
    readContiguous w _

theorem readVectorBool : Mirrors Reader.readVectorBool Reader.readVectorBool := by
  refine (readCollectionLength 1).bind fun len => ite (fun _ => pure _) fun _ => ?_
  refine (ensureBytes _).bind fun ok => ite (fun _ => pure _) fun _ => ?_
  refine get (fun r => ?_) fun r _ _ => rfl
  refine bind (tell fun _ => trivial) fun _ => bind (tell fun _ => trivial) fun _ => ?_
  exact (copy _).bind fun _ => (bump _).bind fun _ => pure _

section Elements

variable {element element' : ReadM β} {payload payload' : ReadM Val} {t : Ty}

theorem readElements {min : Nat} {reserve counted : Bool} {store : α → β → α} {a : α}
    (h : Mirrors element element') : Mirrors
      (Reader.readElements min reserve counted element store a)
      (Reader.readElements min reserve counted element' store a) := by
  have hstore : ∀ (a : α) (v : β), Mirrors (do
      if counted then Prog.tell (.elements 1)
      return store a v : ReadM α) (do
      if counted then Prog.tell (.elements 1)
      return store a v) := fun a v =>
    ite (fun _ => bind (tell fun _ => trivial) fun _ => pure _) fun _ => pure _
  have hloop := fun count => forWhile (fun a : α => h.bind (hstore a)) count a
  refine (readCollectionLength min).bind fun len => ite (fun _ => pure _) fun _ => ?_
  refine ite (fun _ => get (fun r => ?_) fun r _ _ => rfl) fun _ => hloop _
  exact bind (tell fun _ => trivial) fun _ => hloop _

theorem readCollection (h : Mirrors payload payload') :
    Mirrors (Reader.readCollection t payload) (Reader.readCollection t payload') := by
  unfold Reader.readCollection
  split
  · exact readVectorBool.map _
  · exact ite (fun _ => (readVector _).map _) fun _ => readElements h
  · exact readElements h

theorem arrayDeserialize {S : Schema} {n : Nat} (h : Mirrors payload payload') :
    Mirrors (Reader.arrayDeserialize S n t payload) (Reader.arrayDeserialize S n t payload') := by
  unfold Reader.arrayDeserialize
  split
  · exact ite (fun _ => (readArray _ _).map _) fun _ => (readElements h).map Prod.snd
  · exact (readElements h).map Prod.snd

/-! ## Null tests and unions -/

theorem nullTest : Mirrors Reader.nullCollectionTest Reader.nullCollectionTest := by
  intro B r d k
  by_cases h4 : 4 ≤ r.remaining
  · by_cases he : r.error = .none
    · rw [Reader.nullCollectionTest_ok he h4,
        Reader.nullCollectionTest_ok (r := r.nested d k) he h4]
      exact .step rfl id (by simp [ReadEvent.Shallow])
    · rw [Reader.nullCollectionTest_failed he h4,
        Reader.nullCollectionTest_failed (r := r.nested d k) he h4]
      exact .step rfl id (by simp)
  · rw [Reader.nullCollectionTest_short h4,
      Reader.nullCollectionTest_short (r := r.nested d k) h4]
    exact .step rfl id (by simp)

theorem nullCollection (h : Mirrors payload payload') : Mirrors
    (Reader.nullCollectionDeserialize payload) (Reader.nullCollectionDeserialize payload') := by
  rw [Reader.nullCollectionDeserialize_eq, Reader.nullCollectionDeserialize_eq]
  refine nullTest.bind fun b => ite (fun _ => ?_) fun _ => h.map _
  exact (advance 4).bind fun _ => pure _

theorem nullObject (h : Mirrors payload payload') : Mirrors
    (Reader.nullObjectDeserialize payload) (Reader.nullObjectDeserialize payload') := by
  have hpeek : Mirrors Reader.peekIsNull Reader.peekIsNull := by
    refine get (fun r => ite (fun _ => pure _) fun _ => ?_) fun r _ _ => rfl
    exact bind (tell fun _ => trivial) fun _ => pure _
  refine hpeek.bind fun b => ite (fun _ => ?_) fun _ => h.map _
  exact readByte.bind fun _ => pure _

theorem readNullable (align size : Nat) :
    Mirrors (Reader.readNullable align size) (Reader.readNullable align size) := by
  refine (takeBytes _).bind fun src => ?_
  cases src with
  | none => exact pure _
  | some src => exact ite (fun _ => pure _) fun _ => pure _

theorem readNullableOf (t : Ty) : Mirrors (Reader.readNullableOf t) (Reader.readNullableOf t) := by
  cases t with
  | scalar s =>
      refine (readNullable s.size s.size).bind fun bs => ?_
      cases bs with
      | none => exact pure _
      | some bs => exact host fun _ => pure _
  | unmanaged u =>
      refine (readNullable u.align u.size).bind fun bs => ?_
      cases bs <;> exact pure _
  | _ => exact pure _

theorem optionalDeserialize (h : Mirrors payload payload') :
    Mirrors (Reader.optionalDeserialize t payload) (Reader.optionalDeserialize t payload') := by
  unfold Reader.optionalDeserialize
  split
  · exact readNullableOf _
  · exact nullCollection h
  · refine readString.bind fun s => ?_
    cases s <;> exact pure _
  · exact nullCollection h
  · exact nullObject h

theorem undeclaredUnion (tag : UInt16) (v : Val) :
    Mirrors (Reader.undeclaredUnion tag v) (Reader.undeclaredUnion tag v) := by
  refine bind (tell fun _ => trivial) fun _ => get (fun r => ?_) fun r _ _ => rfl
  exact (advance _).bind fun _ => bind (tell fun _ => trivial) fun _ => pure _

end Elements

/-- Every program without user types. -/
theorem readRules : ReadRules (fun {_} _ m => Mirrors m m) (fun _ => True) where
  pure := pure
  bind := bind
  weaken := fun hm _ => hm
  takeBytes := takeBytes
  readRaw := readRaw
  failWith := fun _ a hc => failWith hc a
  advance := advance
  readString := readString
  readVector := fun _ => readVector _
  readVectorBool := readVectorBool
  readArray := fun _ => readArray _ _
  readNullableOf := fun _ _ => readNullableOf _
  elements := fun _ => readElements
  nullCollection := nullCollection
  nullObject := nullObject
  undeclaredUnion := undeclaredUnion

/-! ## The formatters

The targets are default values: that is what `Deserialize<T>` starts from, and every
formatter gives its elements and members default values in their turn. -/

section Formatters

variable {S : Schema} {named named' : Nat → Val → ReadM Val}

theorem readItems (count : Nat) : ∀ {us : List Ty}, (∀ u ∈ us, Mirrors
    (Reader.readTy S named u (S.init u)) (Reader.readTy S named' u (S.init u))) →
      ∀ i, Mirrors (Reader.readItems S named count i us) (Reader.readItems S named' count i us)
  | [], _, i => by
      rw [Reader.readItems, Reader.readItems]
      exact pure _
  | u :: us, hread, i => by
      rw [Reader.readItems, Reader.readItems]
      obtain ⟨hu, hus⟩ := List.forall_mem_cons.mp hread
      have hrest := fun v => (readItems count hus (i + 1)).map (v :: ·)
      exact ite (fun _ => hu.bind hrest) fun _ => (pure _).bind hrest

theorem readAlternative : ∀ {us : List Ty}, (∀ u ∈ us, Mirrors
    (Reader.readTy S named u (S.init u)) (Reader.readTy S named' u (S.init u))) →
      ∀ tag i gs, Mirrors (Reader.readAlternative S named tag i gs us)
        (Reader.readAlternative S named' tag i gs us)
  | us, _, tag, i, [] => by
      rw [Reader.readAlternative, Reader.readAlternative]
      · exact pure _
      · simp
      · simp
  | [], _, tag, i, g :: gs => by
      rw [Reader.readAlternative, Reader.readAlternative]
      · exact pure _
      · simp
      · simp
  | u :: us, hread, tag, i, g :: gs => by
      rw [Reader.readAlternative, Reader.readAlternative]
      obtain ⟨hu, hus⟩ := List.forall_mem_cons.mp hread
      exact ite (fun _ => readAlternative hus tag (i + 1) gs) fun _ =>
        hu.map fun w => some (Val.alt i w)

theorem readTy {A : Ty → Prop} (hnamed : ∀ i, A (.object i) → Mirrors
    (named i (S.init (.object i))) (named' i (S.init (.object i)))) (t : Ty) :
    t.PartsIn A →
      Mirrors (Reader.readTy S named t (S.init t)) (Reader.readTy S named' t (S.init t)) := by
  induction t with
  | scalar s =>
      intro _
      rw [Reader.readTy, Reader.readTy]
      exact (readRules.readScalar s).map Val.scalar
  | string | u16string =>
      intro _
      rw [Reader.readTy, Reader.readTy]
      exact readString.map _
  | vector t ih =>
      intro hA
      rw [Reader.readTy, Reader.readTy]
      exact (readCollection (ih (hA.of_subset (by simp [Ty.parts])))).map Val.seq
  | sequence k t ih =>
      intro hA
      rw [Reader.readTy, Reader.readTy]
      exact (readElements (ih (hA.of_subset (by simp [Ty.parts])))).map Val.seq
  | array n t ih =>
      intro hA
      rw [Reader.readTy, Reader.readTy]
      exact (arrayDeserialize (ih (hA.of_subset (by simp [Ty.parts])))).map Val.seq
  | set o t ih =>
      intro hA
      rw [Reader.readTy, Reader.readTy]
      exact (readElements (ih (hA.of_subset (by simp [Ty.parts])))).map Val.seq
  | map o k t ihk iht =>
      intro hA
      rw [Reader.readTy, Reader.readTy]
      have hk := ihk (hA.of_subset (by simp [Ty.parts]))
      have ht := iht (hA.of_subset (by simp [Ty.parts]))
      exact (readElements (hk.bind fun x => ht.map fun y => Val.pair x y)).map Val.seq
  | pair a b iha ihb =>
      intro hA
      rw [Schema.init, Reader.readTy, Reader.readTy]
      have ha := iha (hA.of_subset (by simp [Ty.parts]))
      have hb := ihb (hA.of_subset (by simp [Ty.parts]))
      exact ha.bind fun x => hb.map fun y => Val.pair x y
  | tuple ts ih =>
      intro hA
      rw [Reader.readTy, Reader.readTy]
      refine readRules.readObjectHeader.bind fun header => ite (fun _ => pure _) fun _ => ?_
      exact (readItems _ (fun u hu => ih u hu (hA.of_item hu)) 0).map Val.seq
  | optional t ih =>
      intro hA
      rw [Reader.readTy, Reader.readTy]
      exact optionalDeserialize (ih (hA.of_subset (by simp [Ty.parts])))
  | pointer p t ih =>
      intro hA
      rw [Reader.readTy, Reader.readTy]
      exact nullObject (ih (hA.of_subset (by simp [Ty.parts])))
  | variant tags ts ih =>
      intro hA
      rw [Reader.readTy, Reader.readTy]
      refine readRules.readUnionHeader.bind fun o => ?_
      cases o with
      | none => exact pure _
      | some tag =>
          refine (readAlternative (fun u hu => ih u hu (hA.of_alternative hu)) tag 0
            tags).bind fun w => ?_
          cases w with
          | none => exact undeclaredUnion tag _
          | some w => exact pure w
  | dotNet d =>
      intro _
      rw [Reader.readTy, Reader.readTy]
      exact readRules.dotNetDeserialize d
  | unmanaged u =>
      intro _
      rw [Reader.readTy, Reader.readTy]
      refine map (bind (takeBytes u.size) fun o => ?_) Val.bytes
      cases o <;> exact pure _
  | object i =>
      intro hA
      rw [Reader.readTy, Reader.readTy]
      exact hnamed i hA.self

end Formatters

/-! ## User types -/

/-- The body of an object, counted on one side only. -/
theorem objectBody {v : Val} {members members' : ReadM (List Val)} (h : Mirrors members members') :
    Mirrors (Reader.objectBody v members) (do return .seq (← members')) := by
  intro B r d k
  by_cases hdeep : r.depth + 1 > r.options.maxDepth
  · have hst : (Reader.objectBody v members B r).st = r.entered.record .lengthLimit := by
      rw [Reader.objectBody_deep hdeep]
      cases hB : B.exceptions with
      | true => rw [Reader.fail_throws hB]; rfl
      | false => rw [Reader.fail_returns hB]; rfl
    have hmem : ReadEvent.entering r.depth ∈ (Reader.objectBody v members B r).log := by
      rw [Reader.objectBody_deep hdeep]
      exact List.mem_cons_self
    have hfailed : (Reader.objectBody v members B r).st.error ≠ .none := by
      rw [hst]
      exact Reader.record_error_ne (by decide)
    refine ⟨by rw [hst]; rfl, fun _ => hfailed, fun _ => hfailed, fun hall => ?_⟩
    exact absurd (hall _ hmem) (UInt32.not_le.mpr hdeep)
  · -- `LeaveObject` only touches the depth, which the other side does not look at
    have hclose : Mirrors (members >>= fun vs _ s => ⟨.ret (.seq vs), s.left, [.leaveBody]⟩)
        (do return .seq (← members') : ReadM Val) := by
      apply h.bind
      intro vs B s d k
      have hleft : s.left.options = s.options ∧ s.left.error = s.error := by
        unfold MemoryPackReader.left
        split <;> exact ⟨rfl, rfl⟩
      show MirrorRun d k s ⟨_, s.left, _⟩ ⟨_, s.nested d k, _⟩
      rw [← s.left_nested d k]
      exact .step hleft.1 (fun he => hleft.2 ▸ he) (by simp [ReadEvent.Shallow])
    have hrun := hclose B r.entered d k
    rw [Reader.objectBody_open hdeep]
    refine hrun.after rfl rfl ?_
    have hopen : r.depth + 1 ≤ r.options.maxDepth := UInt32.not_lt.mp hdeep
    simpa [ReadEvent.Shallow] using hopen

/-! ## `VersionTolerantReader` -/

theorem readVarIntLength : Mirrors Reader.readVarIntLength Reader.readVarIntLength := by
  refine readByte.bind fun b => ite (fun _ => pure _) fun _ => ?_
  refine ite (fun _ => readRaw 2) fun _ => ite (fun _ => readRaw 4) fun _ => ?_
  exact failWith (by decide) _

theorem construct :
    Mirrors VersionTolerantReader.construct VersionTolerantReader.construct := by
  refine readRules.readObjectHeader.bind fun header => ?_
  refine ite (fun _ => pure _) fun _ => (forWhile (fun ls => ?_) _ _).bind fun lengths => ?_
  · exact readVarIntLength.map fun n => ls ++ [n]
  · exact get (fun _ => pure _) fun _ _ _ => rfl

theorem lengthAt (vt : VersionTolerantReader) : Mirrors vt.lengthAt vt.lengthAt :=
  bind (tell fun _ => trivial) fun _ => pure _

theorem readMember {read read' : Val → ReadM Val} {out : Val}
    (hread : Mirrors (read out) (read' out)) (vt : VersionTolerantReader) :
    Mirrors (VersionTolerantReader.readMember read vt out)
      (VersionTolerantReader.readMember read' vt out) := by
  refine ite (fun _ => pure _) fun _ => (lengthAt vt).bind fun len => host fun B => ?_
  refine (seek _).bind fun _ => failed.bind fun b => ite (fun _ => pure _) fun _ => ?_
  exact hread.bind fun v => (seek _).bind fun _ => pure _

theorem skipMember (vt : VersionTolerantReader) : Mirrors (VersionTolerantReader.skipMember vt)
    (VersionTolerantReader.skipMember vt) := by
  refine ite (fun _ => pure _) fun _ => (lengthAt vt).bind fun len => host fun B => ?_
  exact (seek _).bind fun _ => pure _

theorem skipRest : ∀ (left : Nat) (vt : VersionTolerantReader), Mirrors
    (VersionTolerantReader.skipRest left vt) (VersionTolerantReader.skipRest left vt)
  | 0, _ => pure _
  | left + 1, vt => (skipMember vt).bind fun x => skipRest left x.2

theorem finish (vt : VersionTolerantReader) :
    Mirrors (VersionTolerantReader.finish vt) (VersionTolerantReader.finish vt) := by
  refine (skipRest _ vt).bind fun vt' => ite (fun _ => ?_) fun _ => pure _
  exact (seek _).bind fun _ => pure _

section VersionTolerant

variable {S : Schema} {read read' : Ty → Val → ReadM Val}

theorem versionTolerantMembers : ∀ {ts : List Ty},
    (∀ t ∈ ts, Mirrors (read t (S.init t)) (read' t (S.init t))) →
      ∀ vt : VersionTolerantReader, Mirrors
        (VersionTolerantReader.readMembers S read ts (S.inits ts) vt)
        (VersionTolerantReader.readMembers S read' ts (S.inits ts) vt)
  | [], _, _ => pure _
  | t :: ts, hread, vt => by
      rw [Schema.inits, VersionTolerantReader.readMembers, VersionTolerantReader.readMembers]
      obtain ⟨ht, hts⟩ := List.forall_mem_cons.mp hread
      refine (readMember ht vt).bind fun x => ?_
      have hrest := (versionTolerantMembers hts x.2.2).map
        fun y => (x.2.1 :: y.1, y.2)
      exact ite (fun _ => bind (tell fun _ => trivial) fun _ => hrest) fun _ => hrest

theorem versionTolerant {i : Nat} {v : Val} (hv : v.items = S.inits (S.decl i).members)
    (hread : ∀ t ∈ (S.decl i).members, Mirrors (read t (S.init t)) (read' t (S.init t))) :
    Mirrors (VersionTolerantReader.deserialize S read i v)
      (VersionTolerantReader.deserialize S read' i v) := by
  unfold VersionTolerantReader.deserialize
  refine construct.bind fun vt => ite (fun _ => ?_) fun _ => ?_
  · exact bind (tell fun _ => trivial) fun _ => pure _
  · rw [hv]
    refine (versionTolerantMembers hread vt).bind fun x => ?_
    exact (finish x.2).bind fun _ => pure _

end VersionTolerant

/-! ## Runs -/

section Runs

variable {m m' : ReadM α} {B : Build} {r r' : MemoryPackReader} {a : α} {l : List ReadEvent}

/-- A run that ends without a failure went no deeper than it may. -/
theorem succeeds (h : Mirrors m m') (d k : UInt32) (hrun : m B r = ⟨.ret a, r', l⟩)
    (he : r'.error = .none) : Prog.Returns m' B (r.nested d k) a (r'.nested d k) := by
  have hmirror := h B r d k
  rw [hrun] at hmirror
  have hshallow : ∀ e ∈ l, e.Shallow r.options := by
    intro e hmem
    by_contra hdeep
    exact hmirror.deep ⟨e, hmem, hdeep⟩ he
  exact hmirror.same hshallow

/-- Without a limit there is no difference, an error included. -/
theorem unlimited (h : Mirrors m m') (d k : UInt32) (hmax : r.options.maxDepth = 0xFFFFFFFF) :
    (m' B (r.nested d k)).out = (m B r).out ∧
      (m' B (r.nested d k)).st = (m B r).st.nested d k := by
  apply (h B r d k).same
  intro e _
  cases e with
  | entering depth =>
      rw [ReadEvent.Shallow, hmax]
      exact UInt32.le_iff_toNat_le.mpr (Nat.le_of_lt_succ (depth + 1).toNat_lt)
  | _ => trivial

end Runs

end Mirrors

end MemoryPack
