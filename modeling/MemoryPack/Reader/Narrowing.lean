import MemoryPack.Reader.Builds
import MemoryPack.Reader.Limits

/-!
# Tighter limits

A reader's options bound the collections, the strings and the nesting that it lets through.
Options with smaller bounds only reject: the run under them is the run under the larger
ones, event by event, as long as what that run let through is within the smaller bounds, and
it stops with `LengthLimit` where something is not. `NarrowRun` relates the two runs of one
program in the build that throws; `Sync` carries the result to the other build.

The two runs differ in the options that their readers hold, so that a look at the reader is
only allowed to programs that go on alike whatever the options are.
-/

namespace MemoryPack

open Effect

/-- Every limit of `o` is at most that of `o'`. -/
structure ReaderOptions.Narrower (o o' : ReaderOptions) : Prop where
  collection : o.maxCollectionLength ≤ o'.maxCollectionLength
  string : o.maxStringLength ≤ o'.maxStringLength
  depth : o.maxDepth ≤ o'.maxDepth

/-- What the event reports as let through passes the checks under `o`. -/
def ReadEvent.Passes (o : ReaderOptions) : ReadEvent → Prop
  | .acceptedLength n => n ≤ o.maxCollectionLength.toNat
  | .acceptedString units _ => units ≤ o.maxStringLength.toNat
  | .entering depth => depth + 1 ≤ o.maxDepth
  | _ => True

/-- The same reader with other options. -/
def MemoryPackReader.under (r : MemoryPackReader) (o : ReaderOptions) : MemoryPackReader :=
  { r with options := o }

/-- The same run of a reader with other options. -/
def readUnder {α : Type} (o : ReaderOptions)
    (x : Res MemoryPackReader MemoryPackError ReadEvent α) :
    Res MemoryPackReader MemoryPackError ReadEvent α :=
  ⟨x.out, x.st.under o, x.log⟩

/-- `y` is the run `x` under the limits `o`. -/
structure NarrowRun (o : ReaderOptions) {α : Type} (r : MemoryPackReader)
    (x y : Res MemoryPackReader MemoryPackError ReadEvent α) : Prop where
  options : x.st.options = r.options
  error : ∀ a, x.out = .ret a → x.st.error = .none
  within : (∀ e ∈ x.log, e.Passes o) → y = readUnder o x
  beyond : (∃ e ∈ x.log, ¬ e.Passes o) → y.out = .throw .lengthLimit

/-- Smaller limits leave the program's run as it is or stop it with `LengthLimit`. -/
def Narrowing (o : ReaderOptions) {α : Type} (m : ReadM α) : Prop :=
  ∀ (B : Build) (r : MemoryPackReader), B.exceptions = true → r.error = .none →
    o.Narrower r.options → NarrowRun o r (m B r) (m B (r.under o))

variable {o : ReaderOptions} {α β : Type}

namespace NarrowRun

variable {r s : MemoryPackReader} {l : List ReadEvent}

/-- A run that lets nothing through beyond the limits. -/
theorem same {out : Out MemoryPackError α} (ho : s.options = r.options)
    (he : ∀ a, out = .ret a → s.error = .none) (hl : ∀ e ∈ l, e.Passes o) :
    NarrowRun o r ⟨out, s, l⟩ ⟨out, s.under o, l⟩ := by
  refine ⟨ho, he, fun _ => rfl, ?_⟩
  rintro ⟨e, hmem, hbeyond⟩
  exact absurd (hl e hmem) hbeyond

/-- A run that the smaller limits stop. -/
theorem stops {x y : Res MemoryPackReader MemoryPackError ReadEvent α}
    (ho : x.st.options = r.options) (he : ∀ a, x.out = .ret a → x.st.error = .none)
    {e : ReadEvent} (hmem : e ∈ x.log) (hbeyond : ¬ e.Passes o)
    (hy : y.out = .throw .lengthLimit) : NarrowRun o r x y :=
  ⟨ho, he, fun hall => absurd (hall e hmem) hbeyond, fun _ => hy⟩

theorem after {x y : Res MemoryPackReader MemoryPackError ReadEvent α} (h : NarrowRun o r x y)
    (hs : r.options = s.options) (hl : ∀ e ∈ l, e.Passes o) :
    NarrowRun o s (x.after l) (y.after l) := by
  refine ⟨h.options.trans hs, h.error, fun hall => ?_, ?_⟩
  · rw [h.within (List.forall_mem_append.mp hall).2]
    rfl
  · rintro ⟨e, hmem, hbeyond⟩
    exact h.beyond ⟨e, (List.mem_append.mp hmem).resolve_left fun h' => hbeyond (hl e h'), hbeyond⟩

end NarrowRun

namespace Narrowing

/-! ## Sequencing and the cursor -/

theorem pure (a : α) : Narrowing o (Pure.pure a : ReadM α) := fun _ _ _ he _ =>
  .same rfl (fun _ _ => he) (by simp)

/-- An error ends the sequence. -/
theorem bind_throws {x : Res MemoryPackReader MemoryPackError ReadEvent α} {c : MemoryPackError}
    {k : α → MemoryPackReader → Res MemoryPackReader MemoryPackError ReadEvent β}
    (h : x.out = .throw c) : (x.bind k).out = .throw c := by
  rcases x with ⟨out, s, l⟩
  subst h
  rfl

theorem bind {m : ReadM α} {f : α → ReadM β} (hm : Narrowing o m) (hf : ∀ a, Narrowing o (f a)) :
    Narrowing o (m >>= f) := by
  intro B r hB he ho
  have hfirst := hm B r hB he ho
  rw [Prog.bind_apply, Prog.bind_apply]
  rcases hx : m B r with ⟨a | c | _, s, l⟩ <;> rw [hx] at hfirst
  · -- the first part returned, on both sides or only under the larger limits
    have hs : s.options = r.options := hfirst.options
    have hrest := hf a B s hB (hfirst.error a rfl) (hs ▸ ho)
    refine ⟨hrest.options.trans hs, hrest.error, fun hall => ?_, ?_⟩
    · obtain ⟨hl, hl'⟩ := List.forall_mem_append.mp hall
      rw [hfirst.within hl]
      show (f a B (s.under o)).after l = _
      rw [hrest.within hl']
      rfl
    · rintro ⟨e, hmem, hbeyond⟩
      by_cases hl : ∀ e ∈ l, e.Passes o
      · have hmem' : e ∈ (f a B s).log :=
          (List.mem_append.mp hmem).resolve_left fun h => hbeyond (hl e h)
        rw [hfirst.within hl]
        exact hrest.beyond ⟨e, hmem', hbeyond⟩
      · exact bind_throws (hfirst.beyond (by simpa using hl))
  · refine ⟨hfirst.options, by simp, fun hall => ?_, fun hbeyond => ?_⟩
    · rw [hfirst.within hall]
      rfl
    · exact bind_throws (hfirst.beyond hbeyond)
  · refine ⟨hfirst.options, by simp, fun hall => ?_, fun hbeyond => ?_⟩
    · rw [hfirst.within hall]
      rfl
    · exact bind_throws (hfirst.beyond hbeyond)

theorem map {m : ReadM α} (hm : Narrowing o m) (f : α → β) :
    Narrowing o (do return f (← m) : ReadM β) :=
  hm.bind fun a => pure (f a)

theorem ite {c : Prop} [Decidable c] {m m' : ReadM α} (hm : c → Narrowing o m)
    (hm' : ¬ c → Narrowing o m') : Narrowing o (if c then m else m') := by
  by_cases h : c
  · rw [if_pos h]
    exact hm h
  · rw [if_neg h]
    exact hm' h

theorem tell {e : ReadEvent} (h : e.Passes o) : Narrowing o (Prog.tell e : ReadM Unit) :=
  fun _ _ _ he _ => .same rfl (fun _ _ => he) (by simpa using h)

/-- A look at the reader that does not see the options. -/
theorem get {f : MemoryPackReader → ReadM α} (hf : ∀ r, Narrowing o (f r))
    (hblind : ∀ r, f (r.under o) = f r) : Narrowing o (Prog.get >>= f) := by
  intro B r hB he ho
  have h := hf r B r hB he ho
  rw [← hblind r] at h
  simpa [hblind r] using h

theorem host {f : Build → ReadM α} (hf : ∀ B, Narrowing o (f B)) : Narrowing o (Prog.ask >>= f) :=
  fun B r hB he ho => by simpa using hf B B r hB he ho

theorem diverge : Narrowing o (Prog.diverge : ReadM α) := fun _ _ _ _ _ =>
  .same rfl (by simp) (by simp)

theorem fail (code : MemoryPackError) : Narrowing o (Reader.fail code) := by
  intro B r hB he ho
  rw [Reader.fail_throws hB, Reader.fail_throws hB]
  exact .same rfl (by simp) (by simp [ReadEvent.Passes])

theorem failWith (code : MemoryPackError) (a : α) :
    Narrowing o (do Reader.fail code; return a : ReadM α) :=
  (fail code).bind fun _ => pure a

theorem setPos (pos : Nat) : Narrowing o (Reader.setPos pos) := fun _ _ _ he _ =>
  .same rfl (fun _ _ => he) (by simp [ReadEvent.Passes])

theorem failed : Narrowing o Reader.failed := get (fun _ => pure _) fun _ => rfl

theorem ensureBytes (n : Nat) : Narrowing o (Reader.ensureBytes n) := by
  apply get
  · intro r
    refine ite (fun _ => pure _) fun _ => ?_
    exact ite (fun _ => failWith _ _) fun _ => pure _
  · intro r
    rfl

theorem copy (n : Nat) : Narrowing o (Reader.copy n) :=
  get (fun _ => bind (tell trivial) fun _ => pure _) fun _ => rfl

theorem bump (n : Nat) : Narrowing o (Reader.bump n) := get (fun _ => setPos _) fun _ => rfl

theorem takeBytes (n : Nat) : Narrowing o (Reader.takeBytes n) := by
  refine (ensureBytes n).bind fun ok => ite (fun _ => pure _) fun _ => ?_
  exact (copy n).bind fun _ => (bump n).bind fun _ => pure _

theorem advance (n : Nat) : Narrowing o (Reader.advance n) :=
  (ensureBytes n).bind fun _ => ite (fun _ => bump n) fun _ => pure _

theorem seek (pos : Nat) : Narrowing o (Reader.seek pos) := by
  apply get
  · intro r
    refine bind (tell trivial) fun _ => ?_
    exact ite (fun _ => fail _) fun _ => setPos pos
  · intro r
    rfl

theorem readByte : Narrowing o Reader.readByte := by
  refine (takeBytes 1).bind fun bs => ?_
  cases bs <;> exact pure _

theorem readRaw (w : Nat) : Narrowing o (Reader.readRaw w) := by
  refine (takeBytes w).bind fun bs => ?_
  cases bs with
  | none => exact pure _
  | some bs => exact host fun B => pure _

theorem sizeProduct (a b : Nat) : Narrowing o (Reader.sizeProduct a b) :=
  bind (tell trivial) fun _ => host fun _ => pure _

theorem forWhile {body : α → ReadM α} (hbody : ∀ a, Narrowing o (body a)) : ∀ (n : Nat) (a : α),
    Narrowing o (Prog.forWhile MemoryPackReader.failed body n a)
  | 0, a => pure a
  | n + 1, a => by
      rw [Prog.forWhile]
      refine get (fun r => ite (fun _ => pure a) fun _ => ?_) fun r => rfl
      exact (hbody a).bind fun a' => forWhile hbody n a'

/-! ## The limits -/

theorem checkLength (min : Nat) (len : Int) : Narrowing o (Reader.checkLength min len) := by
  intro B r hB he ho
  by_cases hnull : len = nullCollection
  · rw [hnull, Reader.checkLength_null, Reader.checkLength_null]
    exact .same rfl (fun _ _ => he) (by simp)
  by_cases hok : Reader.LengthOk min len r
  · rw [Reader.checkLength_ok hok]
    by_cases hlimit : len.toNat ≤ o.maxCollectionLength.toNat
    · have hok' : Reader.LengthOk min len (r.under o) := ⟨hok.nonneg, hlimit, hok.present⟩
      rw [Reader.checkLength_ok hok']
      exact .same rfl (fun _ _ => he) (by simpa [ReadEvent.Passes] using hlimit)
    · rw [Reader.checkLength_rejects hnull fun h => hlimit h.limit, Reader.fail_throws hB]
      exact .stops (e := .acceptedLength len.toNat) rfl (fun _ _ => he) (by simp) hlimit rfl
  · -- what the larger limits refuse, the smaller ones refuse
    have hok' : ¬ Reader.LengthOk min len (r.under o) := fun h =>
      hok ⟨h.nonneg, h.limit.trans ho.collection, h.present⟩
    rw [Reader.checkLength_rejects hnull hok, Reader.checkLength_rejects hnull hok',
      Reader.fail_throws hB, Reader.fail_throws hB]
    exact .same rfl (by simp) (by simp [ReadEvent.Passes])

theorem readCollectionLength (min : Nat) : Narrowing o (Reader.readCollectionLength min) := by
  rw [Reader.readCollectionLength_eq]
  exact (readRaw 4).bind fun n => checkLength min _

/-- A payload behind `CheckStringLength` that reports the length it was let through with. -/
theorem checkString {n unitSize : Nat} {a : α} {payload : ReadM α}
    (hpayload : ∀ o : ReaderOptions, n ≤ o.maxStringLength.toNat → Narrowing o payload)
    (hreports : ∀ {B : Build} {r : MemoryPackReader}, r.error = .none →
      Reader.StringOk n unitSize r → .acceptedString n unitSize ∈ (payload B r).log) :
    Narrowing o (do
      if !(← Reader.checkStringLength n unitSize) then return a
      payload : ReadM α) := by
  intro B r hB he ho
  simp only [Prog.bind_apply]
  by_cases hok : Reader.StringOk n unitSize r
  · rw [Reader.checkStringLength_ok hok]
    by_cases hlimit : n ≤ o.maxStringLength.toNat
    · rw [Reader.checkStringLength_ok (r := r.under o) ⟨hlimit, hok.present⟩]
      exact hpayload o hlimit B r hB he ho
    · have hlarge := hpayload r.options hok.limit B r hB he
        ⟨UInt32.le_refl _, UInt32.le_refl _, UInt32.le_refl _⟩
      have hok' : ¬ Reader.StringOk n unitSize (r.under o) := fun h => hlimit h.limit
      rw [Reader.checkStringLength_rejects hok', Reader.fail_throws hB]
      exact .stops hlarge.options hlarge.error (hreports he hok) hlimit rfl
  · have hok' : ¬ Reader.StringOk n unitSize (r.under o) := fun h =>
      hok ⟨h.limit.trans ho.string, h.present⟩
    rw [Reader.checkStringLength_rejects hok, Reader.checkStringLength_rejects hok',
      Reader.fail_throws hB, Reader.fail_throws hB]
    exact .same rfl (by simp) (by simp [ReadEvent.Passes])

/-- The end of an object body. -/
theorem leave (vs : List Val) :
    Narrowing o (fun _ s => ⟨.ret (.seq vs), s.left, [.leaveBody]⟩ : ReadM Val) := by
  intro B r _ he _
  have hleft : r.left.options = r.options ∧ r.left.error = r.error ∧
      (r.under o).left = r.left.under o := by
    unfold MemoryPackReader.left
    split <;> simp_all [MemoryPackReader.under]
  show NarrowRun o r ⟨_, r.left, _⟩ ⟨_, (r.under o).left, _⟩
  rw [hleft.2.2]
  exact .same hleft.1 (fun _ _ => hleft.2.1.trans he) (by simp [ReadEvent.Passes])

/-- `EnterObject` reports the depth before it looks at the limit. -/
theorem objectBody {v : Val} {members : ReadM (List Val)} (hm : Narrowing o members) :
    Narrowing o (Reader.objectBody v members) := by
  intro B r hB he ho
  by_cases hdeep : r.depth + 1 > r.options.maxDepth
  · have hdeep' : (r.under o).depth + 1 > (r.under o).options.maxDepth :=
      UInt32.lt_of_le_of_lt ho.depth hdeep
    rw [Reader.objectBody_deep hdeep, Reader.objectBody_deep hdeep', Reader.fail_throws hB,
      Reader.fail_throws hB]
    refine .stops (e := .entering r.depth) rfl (by simp) (by simp) ?_ rfl
    exact UInt32.not_le.mpr hdeep'
  · let close : List Val → MemoryPackReader → Res MemoryPackReader MemoryPackError ReadEvent Val :=
      fun vs s => ⟨.ret (.seq vs), s.left, [.leaveBody]⟩
    have hrun : NarrowRun o r.entered ((members B r.entered).bind close)
        ((members B (r.entered.under o)).bind close) := (hm.bind leave) B r.entered hB he ho
    rw [Reader.objectBody_open hdeep]
    by_cases hdeep' : (r.under o).depth + 1 > (r.under o).options.maxDepth
    · rw [Reader.objectBody_deep hdeep', Reader.fail_throws hB]
      refine .stops (e := .entering r.depth) hrun.options hrun.error (by simp) ?_ rfl
      exact UInt32.not_le.mpr hdeep'
    · rw [Reader.objectBody_open hdeep']
      have hwithin : ∀ e ∈ [ReadEvent.entering r.depth, .enterBody], e.Passes o := by
        have hle : r.depth + 1 ≤ o.maxDepth := UInt32.not_lt.mp hdeep'
        simpa [ReadEvent.Passes] using hle
      exact hrun.after rfl hwithin

/-! ## Strings -/

theorem utf16Loop (left : Nat) (out : List UInt8) : Narrowing o (Reader.utf16Loop left out) := by
  match left with
  | 0 =>
      rw [Reader.utf16Loop]
      exact pure _
  | left + 1 =>
      rw [Reader.utf16Loop]
      refine (readRaw 2).bind fun hi => ite (fun _ => ?_) fun _ =>
        ite (fun _ => utf16Loop left _) fun _ => utf16Loop left _
      match left with
      | 0 => exact pure _
      | left' + 1 =>
          refine (readRaw 2).bind fun lo => ite (fun _ => utf16Loop left' _) fun _ => ?_
          apply get
          · intro r
            exact (setPos _).bind fun _ => utf16Loop (left' + 1) _
          · intro r
            rfl

theorem readUtf16String (units : Nat) : Narrowing o (Reader.readUtf16String units) := by
  refine checkString (fun o hlimit => ?_) fun he hok => ?_
  · refine (sizeProduct units 2).bind fun bytes => (ensureBytes bytes).bind fun ok => ?_
    refine ite (fun _ => pure _) fun _ => bind (tell hlimit) fun _ => ?_
    refine get (fun r => ?_) fun r => rfl
    exact bind (tell trivial) fun _ => utf16Loop units []
  · -- the product of a length that was let through does not exceed what is left
    rename_i B r
    have hunits : units ≤ r.remaining / 2 := hok.present (by decide)
    have hmod : units * 2 % B.sizeMod ≤ r.remaining := (Nat.mod_le _ _).trans (by omega)
    simp [Reader.sizeProduct_apply, Reader.ensureBytes_ok he hmod]

theorem readString : Narrowing o Reader.readString := by
  refine (readRaw 4).bind fun n => failed.bind fun b => ?_
  refine ite (fun _ => pure _) fun _ => ite (fun _ => pure _) fun _ => ?_
  refine ite (fun _ => pure _) fun _ => ite (fun _ => (readUtf16String _).map some) fun _ => ?_
  refine (readRaw 4).bind fun _ => checkString (fun o hlimit => ?_) fun he hok => ?_
  · refine (takeBytes _).bind fun bs => ?_
    cases bs with
    | none => exact pure _
    | some bs => exact bind (tell hlimit) fun _ => pure _
  · have hpresent := hok.present Nat.one_pos
    rw [Nat.div_one] at hpresent
    simp only [Prog.bind_apply, Reader.takeBytes_ok he hpresent, Res.bind_ret]
    simp

/-! ## Collections -/

theorem readRaws (w : Nat) : ∀ count, Narrowing o (Reader.readRaws w count)
  | 0 => pure _
  | count + 1 => (readRaw w).bind fun n => (readRaws w count).map (n :: ·)

theorem readContiguous (w count : Nat) : Narrowing o (Reader.readContiguous w count) := by
  refine host fun B => ite (fun _ => ?_) fun _ => readRaws w count
  refine (sizeProduct count w).bind fun bytes => (copy bytes).bind fun bs => ?_
  exact (bump bytes).bind fun _ => pure _

theorem skipElements (w : Nat) (skipCount : Int) :
    Narrowing o (Reader.skipElements w skipCount) := by
  refine ite (fun _ => (sizeProduct _ w).bind fun bytes => ?_) fun _ => pure _
  exact advance bytes

theorem readArray (w : Nat) (maxCount : Int) : Narrowing o (Reader.readArray w maxCount) := by
  refine (readCollectionLength w).bind fun len => ite (fun _ => pure _) fun _ => ?_
  refine ite (fun _ => ?_) fun _ => (skipElements w _).bind fun _ => pure _
  refine (sizeProduct _ w).bind fun bytes => (ensureBytes bytes).bind fun ok => ?_
  refine ite (fun _ => pure _) fun _ => (readContiguous w _).bind fun _ => ?_
  exact (skipElements w _).bind fun _ => pure _

theorem readVector (w : Nat) : Narrowing o (Reader.readVector w) := by
  refine (readCollectionLength w).bind fun len => ite (fun _ => pure _) fun _ => ?_
  refine (sizeProduct _ w).bind fun bytes => (ensureBytes bytes).bind fun ok => ?_
  refine ite (fun _ => pure _) fun _ => get (fun r => ?_) fun r => rfl
  exact bind (tell trivial) fun _ => bind (tell trivial) fun _ => readContiguous w _

theorem readVectorBool : Narrowing o Reader.readVectorBool := by
  refine (readCollectionLength 1).bind fun len => ite (fun _ => pure _) fun _ => ?_
  refine (ensureBytes _).bind fun ok => ite (fun _ => pure _) fun _ => ?_
  refine get (fun r => ?_) fun r => rfl
  refine bind (tell trivial) fun _ => bind (tell trivial) fun _ => ?_
  exact (copy _).bind fun _ => (bump _).bind fun _ => pure _

theorem readElements {min : Nat} {reserve counted : Bool} {element : ReadM β} {store : α → β → α}
    {a : α} (helement : Narrowing o element) :
    Narrowing o (Reader.readElements min reserve counted element store a) := by
  refine (readCollectionLength min).bind fun len => ite (fun _ => pure _) fun _ => ?_
  have hbody : ∀ a, Narrowing o (do
      let v ← element
      if counted then Prog.tell (.elements 1)
      return store a v : ReadM α) := fun a => helement.bind fun v =>
    ite (fun _ => bind (tell trivial) fun _ => pure _) fun _ => pure _
  refine ite (fun _ => get (fun r => ?_) fun r => rfl) fun _ => forWhile hbody _ a
  exact bind (tell trivial) fun _ => forWhile hbody _ a

/-! ## Null tests and unions -/

theorem nullTest : Narrowing o Reader.nullCollectionTest := by
  intro B r hB he ho
  by_cases h4 : 4 ≤ r.remaining
  · rw [Reader.nullCollectionTest_ok he h4, Reader.nullCollectionTest_ok (r := r.under o) he h4]
    exact .same rfl (fun _ _ => he) (by simp [ReadEvent.Passes])
  · rw [Reader.nullCollectionTest_short h4, Reader.nullCollectionTest_short (r := r.under o) h4]
    exact .same rfl (fun _ _ => he) (by simp)

theorem nullCollection {payload : ReadM Val} (hp : Narrowing o payload) :
    Narrowing o (Reader.nullCollectionDeserialize payload) := by
  rw [Reader.nullCollectionDeserialize_eq]
  refine nullTest.bind fun b => ite (fun _ => ?_) fun _ => hp.map _
  exact (advance 4).bind fun _ => pure _

theorem nullObject {payload : ReadM Val} (hp : Narrowing o payload) :
    Narrowing o (Reader.nullObjectDeserialize payload) := by
  have hpeek : Narrowing o Reader.peekIsNull := by
    refine get (fun r => ite (fun _ => pure _) fun _ => ?_) fun r => rfl
    exact bind (tell trivial) fun _ => pure _
  refine hpeek.bind fun b => ite (fun _ => ?_) fun _ => hp.map _
  exact readByte.bind fun _ => pure _

theorem readNullable (align size : Nat) : Narrowing o (Reader.readNullable align size) := by
  refine (takeBytes _).bind fun src => ?_
  cases src with
  | none => exact pure _
  | some src => exact ite (fun _ => pure _) fun _ => pure _

theorem readNullableOf (t : Ty) : Narrowing o (Reader.readNullableOf t) := by
  cases t with
  | scalar s =>
      refine (readNullable s.size s.size).bind fun bs => ?_
      cases bs with
      | none => exact pure _
      | some bs => exact host fun _ => pure _
  | unmanaged u =>
      refine (readNullable u.align u.size).bind fun bs => ?_
      cases bs <;> exact pure _
  | _ => exact pure _

theorem undeclaredUnion (tag : UInt16) (v : Val) : Narrowing o (Reader.undeclaredUnion tag v) := by
  refine bind (tell trivial) fun _ => get (fun r => ?_) fun r => rfl
  exact (advance _).bind fun _ => bind (tell trivial) fun _ => pure _

theorem readRules : ReadRules (fun {_} _ => Narrowing o) (fun _ => True) where
  pure := pure
  bind := bind
  weaken := fun hm _ => hm
  takeBytes := takeBytes
  readRaw := readRaw
  failWith := fun _ a _ => failWith _ a
  advance := advance
  readString := readString
  readVector := fun _ => readVector _
  readVectorBool := readVectorBool
  readArray := fun _ => readArray _ _
  readNullableOf := fun _ _ => readNullableOf _
  elements := fun _ => readElements
  nullCollection := nullCollection
  nullObject := nullObject
  undeclaredUnion := undeclaredUnion

/-! ## User types -/

theorem readMembers {S : Schema} {read : Ty → Val → ReadM Val}
    (hread : ∀ t v, Narrowing o (read t v)) (count : Nat) : ∀ (ts : List Ty) (index : Nat)
      (vs : List Val), Narrowing o (Reader.readMembers S read count index ts vs)
  | [], _, _ => pure _
  | t :: ts, index, vs => by
      have hrest := fun v => (readMembers hread (S := S) count ts (index + 1) vs.tail).map (v :: ·)
      refine ite (fun _ => (hread t _).bind hrest) fun _ => ?_
      exact bind (tell trivial) fun _ => (pure _).bind hrest

theorem readVarIntLength : Narrowing o Reader.readVarIntLength := by
  refine readByte.bind fun b => ite (fun _ => pure _) fun _ => ?_
  refine ite (fun _ => readRaw 2) fun _ => ite (fun _ => readRaw 4) fun _ => ?_
  exact failWith _ _

theorem readObjectHeader : Narrowing o Reader.readObjectHeader := readRules.readObjectHeader

theorem construct : Narrowing o VersionTolerantReader.construct := by
  refine readObjectHeader.bind fun header => ?_
  refine ite (fun _ => pure _) fun _ => (forWhile (fun ls => ?_) _ _).bind fun lengths => ?_
  · exact readVarIntLength.map fun n => ls ++ [n]
  · exact get (fun _ => pure _) fun _ => rfl

theorem lengthAt (vt : VersionTolerantReader) : Narrowing o vt.lengthAt :=
  bind (tell trivial) fun _ => pure _

theorem readMember {read : Val → ReadM Val} (hread : ∀ v, Narrowing o (read v))
    (vt : VersionTolerantReader) (out : Val) :
    Narrowing o (VersionTolerantReader.readMember read vt out) := by
  refine ite (fun _ => pure _) fun _ => (lengthAt vt).bind fun len => host fun B => ?_
  refine (seek _).bind fun _ => failed.bind fun b => ite (fun _ => pure _) fun _ => ?_
  exact (hread out).bind fun v => (seek _).bind fun _ => pure _

theorem skipMember (vt : VersionTolerantReader) :
    Narrowing o (VersionTolerantReader.skipMember vt) := by
  refine ite (fun _ => pure _) fun _ => (lengthAt vt).bind fun len => host fun B => ?_
  exact (seek _).bind fun _ => pure _

theorem skipRest : ∀ (left : Nat) (vt : VersionTolerantReader),
    Narrowing o (VersionTolerantReader.skipRest left vt)
  | 0, _ => pure _
  | left + 1, vt => (skipMember vt).bind fun x => skipRest left x.2

theorem finish (vt : VersionTolerantReader) : Narrowing o (VersionTolerantReader.finish vt) := by
  refine (skipRest _ vt).bind fun vt' => ite (fun _ => ?_) fun _ => pure _
  exact (seek _).bind fun _ => pure _

theorem versionTolerantMembers {S : Schema} {read : Ty → Val → ReadM Val}
    (hread : ∀ t v, Narrowing o (read t v)) : ∀ (ts : List Ty) (vs : List Val)
      (vt : VersionTolerantReader), Narrowing o (VersionTolerantReader.readMembers S read ts vs vt)
  | [], _, _ => pure _
  | t :: ts, vs, vt => by
      refine (readMember (hread t) vt _).bind fun x => ?_
      have hrest := (versionTolerantMembers hread (S := S) ts vs.tail x.2.2).map
        fun y => (x.2.1 :: y.1, y.2)
      exact ite (fun _ => bind (tell trivial) fun _ => hrest) fun _ => hrest

/-- The induction is on the nested user objects that `fuel` has room for. -/
theorem readObject {S : Schema} : ∀ (fuel i : Nat) (v : Val),
    Narrowing o (Reader.readObject S fuel i v)
  | 0, _, _ => diverge
  | fuel + 1, i, v => by
      have hread : ∀ t v, Narrowing o (Reader.readTy S (Reader.readObject S fuel) t v) :=
        fun t v => readRules.readTy (fun j w => readObject fuel j w) t (fun _ _ => trivial) v
      rw [Reader.readObject]
      split
      · refine readObjectHeader.bind fun header => ite (fun _ => pure _) fun _ => ?_
        exact objectBody (readMembers hread _ _ _ _)
      · refine readObjectHeader.bind fun header => ite (fun _ => pure _) fun _ => ?_
        exact bind (tell trivial) fun _ => pure _
      · refine construct.bind fun vt => ite (fun _ => ?_) fun _ => ?_
        · exact bind (tell trivial) fun _ => pure _
        · refine (versionTolerantMembers hread _ _ vt).bind fun x => ?_
          exact (finish x.2).bind fun _ => pure _

theorem read (S : Schema) (t : Ty) (v : Val) : Narrowing o (Reader.read S t v) := by
  refine get (fun r => ?_) fun r => rfl
  exact readRules.readTy (readObject (r.size + 1)) t (fun _ _ => trivial) v

end Narrowing

/-! ## Decoding in either build -/

section Builds

theorem Build.quiet_or_throwing (B : Build) : B.quiet = B ∨ B.throwing = B := by
  rcases B with ⟨_ | _, e, w, n⟩
  · left
    rfl
  · right
    rfl

variable {m : ReadM α} {B : Build} {r r' : MemoryPackReader} {a : α} {l : List ReadEvent}

theorem Unfailed.ret_iff (h : Unfailed m) (he : r.error = .none) :
    m B r = ⟨.ret a, r', l⟩ ∧ r'.error = .none ↔ m B.throwing r = ⟨.ret a, r', l⟩ := by
  have hsync : m B.throwing r = ⟨.ret a, r', l⟩ →
      r'.error = .none ∧ m B.quiet r = ⟨.ret a, r', l⟩ := h.sync.ret he
  have hback : m B.quiet r = ⟨.ret a, r', l⟩ → r'.error = .none →
      m B.throwing r = ⟨.ret a, r', l⟩ := h.throwing he
  rcases B.quiet_or_throwing with hB | hB <;> rw [hB] at hsync hback
  · exact ⟨fun h => hback h.1 h.2, fun hrun => (hsync hrun).symm⟩
  · rw [hB]
    exact ⟨fun hrun => hrun.1, fun hrun => ⟨hrun, (hsync hrun).1⟩⟩

/-- A run that returns without a failure is a run of the exception build that returns. -/
theorem Unfailed.returns_iff (h : Unfailed m) (he : r.error = .none) :
    (∃ r', Prog.Returns m B r a r' ∧ r'.error = .none) ↔
      ∃ r', Prog.Returns m B.throwing r a r' := by
  constructor
  · rintro ⟨r', hret, he'⟩
    obtain ⟨l, hrun⟩ := Prog.returns_iff.mp hret
    exact ⟨r', Prog.returns_iff.mpr ⟨l, (h.ret_iff he).mp ⟨hrun, he'⟩⟩⟩
  · rintro ⟨r', hret⟩
    obtain ⟨l, hrun⟩ := Prog.returns_iff.mp hret
    obtain ⟨hrun', he'⟩ := (h.ret_iff (B := B) he).mpr hrun
    exact ⟨r', Prog.returns_iff.mpr ⟨l, hrun'⟩, he'⟩

theorem Sync.error_of_throw (h : Sync m) (he : r.error = .none) {c : MemoryPackError}
    (hthrow : (m B.throwing r).out = .throw c) : (m B r).st.error = c := by
  rcases hrun : m B.throwing r with ⟨out, s, l⟩
  rw [hrun] at hthrow
  obtain rfl : out = .throw c := hthrow
  obtain ⟨-, hs, hquiet⟩ := h.throw he hrun
  rcases B.quiet_or_throwing with hB | hB
  · rw [hB] at hquiet
    exact hquiet
  · rw [hB] at hrun
    rw [hrun]
    exact hs

end Builds

/-- With the smaller limits a decode succeeds exactly where it succeeds with the larger ones
and all that it lets through is within the smaller ones; it is the same decode then, event by
event. Where something is not, the error is `LengthLimit`; an error that it ends with under
the larger limits stays, or `LengthLimit` comes first. -/
theorem read_tighter_limits (S : Schema) (t : Ty) (v : Val) (B : Build) {r : MemoryPackReader}
    (he : r.error = .none) {o : ReaderOptions} (ho : o.Narrower r.options) :
    (∀ w r' l, (Reader.read S t v B (r.under o) = ⟨.ret w, r'.under o, l⟩ ∧
        r'.options = r.options ∧ r'.error = .none) ↔
      (Reader.read S t v B r = ⟨.ret w, r', l⟩ ∧ r'.error = .none ∧ ∀ e ∈ l, e.Passes o)) ∧
    (∀ w r' l, Reader.read S t v B r = ⟨.ret w, r', l⟩ → r'.error = .none →
      (∃ e ∈ l, ¬ e.Passes o) → (Reader.read S t v B (r.under o)).st.error = .lengthLimit) ∧
    (∀ c, (Reader.read S t v B.throwing r).out = .throw c →
      (Reader.read S t v B (r.under o)).st.error = c ∨
        (Reader.read S t v B (r.under o)).st.error = .lengthLimit) := by
  have hrun := Narrowing.read S t v B.throwing r rfl he ho
  have hunfailed := Unfailed.read S t v
  have hsync := Sync.read S t v
  have hlimited : (r.under o).error = .none := he
  refine ⟨fun w r' l => ⟨?_, ?_⟩, ?_, ?_⟩
  · rintro ⟨htight, hoptions, he'⟩
    have hy := (hunfailed.ret_iff hlimited).mp ⟨htight, he'⟩
    rw [hy] at hrun
    by_cases hall : ∀ e ∈ (Reader.read S t v B.throwing r).log, e.Passes o
    · -- the run was not stopped, so that it is the run under the larger limits
      have hwithin := hrun.within hall
      have hst := hrun.options
      rcases hx : Reader.read S t v B.throwing r with ⟨out, s, l'⟩
      rw [hx] at hwithin hst hall
      rw [readUnder, Res.mk.injEq] at hwithin
      obtain ⟨rfl, hs, rfl⟩ := hwithin
      have hs' : s = r' := by
        cases s
        cases r'
        simp_all [MemoryPackReader.under]
      rw [hs'] at hx
      obtain ⟨hloose, -⟩ := (hunfailed.ret_iff he).mpr hx
      exact ⟨hloose, he', hall⟩
    · have hthrow := hrun.beyond (by simpa using hall)
      simp at hthrow
  · rintro ⟨hloose, he', hall⟩
    have hx := (hunfailed.ret_iff he).mp ⟨hloose, he'⟩
    rw [hx] at hrun
    have hy := hrun.within hall
    obtain ⟨htight, -⟩ := (hunfailed.ret_iff (B := B) hlimited).mpr hy
    exact ⟨htight, hrun.options, he'⟩
  · intro w r' l hloose he' hbeyond
    have hx := (hunfailed.ret_iff he).mp ⟨hloose, he'⟩
    rw [hx] at hrun
    exact hsync.error_of_throw hlimited (hrun.beyond hbeyond)
  · intro c hc
    by_cases hall : ∀ e ∈ (Reader.read S t v B.throwing r).log, e.Passes o
    · left
      apply hsync.error_of_throw hlimited
      rw [hrun.within hall]
      exact hc
    · right
      exact hsync.error_of_throw hlimited (hrun.beyond (by simpa using hall))

/-- A string of two bytes, where two are allowed. -/
def twoByteString : MemoryPackReader :=
  shortStringReader [0xFD, 0xFF, 0xFF, 0xFF, 2, 0, 0, 0, 0x61, 0x62]

theorem read_tighter_limits_twoByteString :
    (Reader.read .plain .string (.bytes []) ⟨false, .little, .w64, 0⟩ twoByteString).out =
      .ret (.bytes [0x61, 0x62]) ∧
    (Reader.read .plain .string (.bytes []) ⟨false, .little, .w64, 0⟩
      (twoByteString.under { maxStringLength := 1 })).st.error = .lengthLimit := by
  have hout : (Reader.read .plain .string (.bytes []) ⟨false, .little, .w64, 0⟩
      twoByteString).out = .ret (.bytes [0x61, 0x62]) := rfl
  have herror : (Reader.read .plain .string (.bytes []) ⟨false, .little, .w64, 0⟩
      twoByteString).st.error = .none := rfl
  have hlog : (Reader.read .plain .string (.bytes []) ⟨false, .little, .w64, 0⟩
      twoByteString).log.any (fun e => match e with
        | .acceptedString 2 1 => true
        | _ => false) = true := by decide +kernel
  rcases hres : Reader.read .plain .string (.bytes []) ⟨false, .little, .w64, 0⟩ twoByteString
    with ⟨out, s, l⟩
  rw [hres] at hout herror hlog
  have hbeyond : ∃ e ∈ l, ¬ e.Passes { maxStringLength := 1 } := by
    obtain ⟨e, he, hmatch⟩ := List.any_eq_true.mp hlog
    refine ⟨e, he, ?_⟩
    split at hmatch
    · simp [ReadEvent.Passes]
    · cases hmatch
  obtain rfl : out = _ := hout
  have hnarrower : ReaderOptions.Narrower { maxStringLength := 1 } twoByteString.options :=
    ⟨by decide, by decide, by decide⟩
  exact ⟨rfl, (read_tighter_limits .plain .string (.bytes []) ⟨false, .little, .w64, 0⟩
    (r := twoByteString) rfl hnarrower).2.1 _ _ _ hres herror hbeyond⟩

end MemoryPack
