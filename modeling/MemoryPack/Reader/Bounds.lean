import MemoryPack.Reader.Basic

/-!
# Bounds, wrap-around, termination, nesting

Decoding arbitrary bytes: the cursor stays inside the input, every dereferenced
byte lies in it, no size computation wraps, decoding terminates, and the nesting
of object bodies is bounded by `maxDepth` as long as the `uint32_t` depth counter
does not wrap.

`Bounded B Q k` is the invariant of the first four; `k` bounds what is left of the
input, which is what the recursion through user types spends. `Nested` is the
invariant of the last, stated over every prefix of the event log, that is, over
every moment of the run.
-/

namespace MemoryPack

open Effect

/-! ## The invariant of one run -/

def ReadEvent.InBounds (size : Nat) : ReadEvent → Prop
  | .moved pos => pos ≤ size
  | .access start n => start + n ≤ size
  | _ => True

theorem ReadEvent.Cursor.inBounds {size : Nat} {e : ReadEvent} (h : e.Cursor size) :
    e.InBounds size := by
  cases e <;> first | exact h | trivial

/-- What a run from `r` did. Products are bounded when the input fits in a `size_t`
and the side condition `Q` on `std::array` sizes holds. -/
structure BoundedRun (B : Build) (Q : Prop) {α : Type} (r : MemoryPackReader)
    (res : Res MemoryPackReader MemoryPackError ReadEvent α) : Prop where
  total : res.out ≠ .diverge
  data : res.st.data = r.data
  options : res.st.options = r.options
  pos_le : r.pos ≤ res.st.pos
  le_size : res.st.pos ≤ r.size
  error : r.error ≠ .none → res.st.error ≠ .none
  events : ∀ e ∈ res.log, e.InBounds r.size
  products : Q → r.size < B.sizeMod → ∀ a b, .product a b ∈ res.log → a * b < B.sizeMod

/-- The cursor is inside the input and less than `k` bytes are left. -/
structure Ready (k : Nat) (r : MemoryPackReader) : Prop where
  pos_le : r.pos ≤ r.size
  lt : r.remaining < k

/-- The invariant, of a program. -/
def Bounded (B : Build) (Q : Prop) (k : Nat) {α : Type} (m : ReadM α) : Prop :=
  ∀ r, Ready k r → BoundedRun B Q r (m B r)

variable {B : Build} {Q : Prop} {k : Nat} {α β : Type}

namespace BoundedRun

variable {r : MemoryPackReader}

theorem size_eq {res : Res MemoryPackReader MemoryPackError ReadEvent α}
    (h : BoundedRun B Q r res) : res.st.size = r.size := by
  rw [MemoryPackReader.size, h.data, MemoryPackReader.size]

theorem ready {res : Res MemoryPackReader MemoryPackError ReadEvent α}
    (h : BoundedRun B Q r res) (hr : Ready k r) : Ready k res.st where
  pos_le := by rw [h.size_eq]; exact h.le_size
  lt := by
    have hlt : r.size - r.pos < k := hr.lt
    have hpos := h.pos_le
    rw [MemoryPackReader.remaining, h.size_eq]
    omega

/-- A run that leaves the reader as it was. -/
theorem stay (hr : r.pos ≤ r.size) (a : α) {l : List ReadEvent}
    (hl : ∀ e ∈ l, e.InBounds r.size)
    (hp : Q → r.size < B.sizeMod → ∀ a b, .product a b ∈ l → a * b < B.sizeMod) :
    BoundedRun B Q r ⟨.ret a, r, l⟩ :=
  ⟨by simp, rfl, rfl, Nat.le_refl _, hr, id, hl, hp⟩

/-- A run that moves the cursor inside the input and computes no product. -/
theorem move (a : α) (pos : Nat) (hpos : r.pos ≤ pos) (hsize : pos ≤ r.size)
    {l : List ReadEvent} (hl : ∀ e ∈ l, e.Cursor r.size) :
    BoundedRun B Q r ⟨.ret a, { r with pos := pos }, l⟩ :=
  ⟨by simp, rfl, rfl, hpos, hsize, id, fun e he => (hl e he).inBounds,
    fun _ _ a b hab => absurd (hl _ hab) (by simp [ReadEvent.Cursor])⟩

theorem bind {m : ReadM α} {f : α → ReadM β} (hm : BoundedRun B Q r (m B r))
    (hf : ∀ a r' l, m B r = ⟨.ret a, r', l⟩ → BoundedRun B Q r' (f a B r')) :
    BoundedRun B Q r ((m >>= f) B r) := by
  rw [Prog.bind_apply]
  rcases hres : m B r with ⟨a | e | _, r', l⟩
  · have h' := hf a r' l hres
    rw [hres] at hm
    have hsize : r'.size = r.size := hm.size_eq
    rw [Res.bind_ret]
    refine ⟨h'.total, h'.data.trans hm.data, h'.options.trans hm.options,
      hm.pos_le.trans h'.pos_le, hsize ▸ h'.le_size, fun he => h'.error (hm.error he), ?_, ?_⟩
    · intro e he
      rcases List.mem_append.mp he with he | he
      · exact hm.events e he
      · exact hsize ▸ h'.events e he
    · intro hQ hlt a b hab
      rcases List.mem_append.mp hab with hab | hab
      · exact hm.products hQ hlt a b hab
      · exact h'.products hQ (hsize ▸ hlt) a b hab
  · rw [hres] at hm
    exact ⟨by simp, hm.data, hm.options, hm.pos_le, hm.le_size, hm.error, hm.events, hm.products⟩
  · rw [hres] at hm
    exact absurd rfl hm.total

end BoundedRun

namespace Bounded

theorem pure (a : α) : Bounded B Q k (Pure.pure a : ReadM α) :=
  fun _ hr => .stay hr.pos_le a (by simp) (by simp)

/-- Sequencing, when the second part relies on what the first established. -/
theorem bindFrom {m : ReadM α} {f : α → ReadM β} (hm : Bounded B Q k m)
    (hf : ∀ r a r' l, Ready k r → m B r = ⟨.ret a, r', l⟩ → Ready k r' →
      BoundedRun B Q r' (f a B r')) : Bounded B Q k (m >>= f) := by
  intro r hr
  have h := hm r hr
  refine h.bind fun a r' l hres => hf r a r' l hr hres ?_
  have hr' := h.ready hr
  rwa [hres] at hr'

theorem bind {m : ReadM α} {f : α → ReadM β} (hm : Bounded B Q k m)
    (hf : ∀ a, Bounded B Q k (f a)) : Bounded B Q k (m >>= f) :=
  hm.bindFrom fun _ a r' _ _ _ hr' => hf a r' hr'

theorem get : Bounded B Q k (Prog.get : ReadM MemoryPackReader) :=
  fun r hr => .stay hr.pos_le r (by simp) (by simp)

theorem ask : Bounded B Q k (Prog.ask : ReadM Build) :=
  fun _ hr => .stay hr.pos_le B (by simp) (by simp)

theorem tell {e : ReadEvent} (he : ∀ size, e.InBounds size) (hp : ∀ a b, e ≠ .product a b) :
    Bounded B Q k (Prog.tell e : ReadM Unit) :=
  fun r hr => .stay hr.pos_le () (by simpa using he r.size)
    (by simp only [List.mem_singleton]; exact fun _ _ a b h => absurd h.symm (hp a b))

theorem fail {code : MemoryPackError} (hc : code ≠ .none) :
    Bounded B Q k (Reader.fail code) := by
  intro r hr
  have herr : r.error ≠ .none → (r.record code).error ≠ .none :=
    fun _ => Reader.record_error_ne hc
  cases hB : B.exceptions with
  | true =>
      rw [Reader.fail_throws hB]
      exact ⟨by simp, rfl, rfl, Nat.le_refl _, hr.pos_le, herr,
        by simp [ReadEvent.InBounds], by simp⟩
  | false =>
      rw [Reader.fail_returns hB]
      exact ⟨by simp, rfl, rfl, Nat.le_refl _, hr.pos_le, herr,
        by simp [ReadEvent.InBounds], by simp⟩

theorem failWith {code : MemoryPackError} (hc : code ≠ .none) (a : α) :
    Bounded B Q k (do Reader.fail code; return a : ReadM α) :=
  (fail hc).bind fun _ => pure a

theorem ensureBytes (n : Nat) : Bounded B Q k (Reader.ensureBytes n) := by
  refine get.bind fun r => ?_
  refine Prog.Closed.ite (fun _ => pure _) fun _ => ?_
  exact Prog.Closed.ite (fun _ => failWith (by decide) _) fun _ => pure _

theorem advance (n : Nat) : Bounded B Q k (Reader.advance n) := by
  intro r hr
  by_cases he : r.error = .none
  · by_cases hn : n ≤ r.remaining
    · rw [Reader.advance_ok he hn]
      have hsize : r.pos + n ≤ r.size := by
        have := hr.pos_le
        have : n ≤ r.size - r.pos := hn
        omega
      exact .move () _ (by omega) hsize (by simpa [ReadEvent.Cursor] using hsize)
    · rw [Reader.advance_short he (by omega)]
      exact fail (by decide) r hr
  · rw [Reader.advance_failed he]
    exact .stay hr.pos_le () (by simp) (by simp)

theorem takeBytes (n : Nat) : Bounded B Q k (Reader.takeBytes n) := by
  intro r hr
  by_cases he : r.error = .none
  · by_cases hn : n ≤ r.remaining
    · rw [Reader.takeBytes_ok he hn]
      have hsize : r.pos + n ≤ r.size := by
        have := hr.pos_le
        have : n ≤ r.size - r.pos := hn
        omega
      exact .move _ _ (by omega) hsize (by simpa [ReadEvent.Cursor] using hsize)
    · rw [Reader.takeBytes_short he (by omega)]
      exact failWith (by decide) none r hr
  · rw [Reader.takeBytes_failed he]
    exact .stay hr.pos_le _ (by simp) (by simp)

theorem readRaw (w : Nat) : Bounded B Q k (Reader.readRaw w) := by
  refine (takeBytes w).bind fun o => ?_
  cases o with
  | none => exact pure _
  | some bs => exact ask.bind fun _ => pure _

theorem checkStringLength (byteCount unitSize : Nat) :
    Bounded B Q k (Reader.checkStringLength byteCount unitSize) := by
  refine get.bind fun r => ?_
  refine Prog.Closed.ite (fun _ => failWith (by decide) _) fun _ => ?_
  exact Prog.Closed.ite (fun _ => failWith (by decide) _) fun _ => pure _

theorem readCollectionLength (min : Nat) : Bounded B Q k (Reader.readCollectionLength min) := by
  refine (readRaw 4).bind fun n => ?_
  refine Prog.Closed.ite (fun _ => ?_) fun _ => get.bind fun r => ?_
  · exact Prog.Closed.ite (fun _ => failWith (by decide) _) fun _ => pure _
  · refine Prog.Closed.ite (fun _ => failWith (by decide) _) fun _ => ?_
    refine Prog.Closed.ite (fun _ => failWith (by decide) _) fun _ => ?_
    exact bind (tell (fun _ => trivial) (by simp)) fun _ => pure _

end Bounded

/-! ## Statements behind a check

`BoundedFrom pre m`: the invariant holds of `m` in the states where a check that
precedes it has succeeded. -/

def BoundedFrom (B : Build) (Q : Prop) (k : Nat) (pre : MemoryPackReader → Prop) {α : Type}
    (m : ReadM α) : Prop :=
  ∀ r, Ready k r → pre r → BoundedRun B Q r (m B r)

namespace BoundedFrom

variable {pre : MemoryPackReader → Prop}

theorem of_bounded {m : ReadM α} (h : Bounded B Q k m) : BoundedFrom B Q k pre m :=
  fun r hr _ => h r hr

theorem bounded {m : ReadM α} (h : BoundedFrom B Q k (fun _ => True) m) : Bounded B Q k m :=
  fun r hr => h r hr trivial

theorem bind {m : ReadM α} {f : α → ReadM β} (hm : BoundedFrom B Q k pre m)
    (hf : ∀ a, Bounded B Q k (f a)) : BoundedFrom B Q k pre (m >>= f) := by
  intro r hr h
  have hrun := hm r hr h
  refine hrun.bind fun a r' l hres => hf a r' ?_
  have hr' := hrun.ready hr
  rwa [hres] at hr'

theorem tell {e : ReadEvent} {f : Unit → ReadM α} (he : ∀ size, e.InBounds size)
    (hp : ∀ a b, e ≠ .product a b) (hf : BoundedFrom B Q k pre (f ())) :
    BoundedFrom B Q k pre (Prog.tell e >>= f) := by
  intro r hr h
  refine (Bounded.tell he hp r hr).bind fun _ r' l hres => ?_
  obtain ⟨-, rfl, -⟩ := (Res.mk.injEq ..).mp hres
  exact hf r hr h

theorem get {f : MemoryPackReader → ReadM α} (hf : ∀ s, BoundedFrom B Q k pre (f s)) :
    BoundedFrom B Q k pre (Prog.get >>= f) := by
  intro r hr h
  refine (Bounded.get r hr).bind fun s r' l hres => ?_
  obtain ⟨-, rfl, -⟩ := (Res.mk.injEq ..).mp hres
  exact hf s r hr h

theorem sizeProduct {a b : Nat} {f : Nat → ReadM α}
    (hp : ∀ r, pre r → Q → r.size < B.sizeMod → a * b < B.sizeMod)
    (hf : BoundedFrom B Q k pre (f (a * b % B.sizeMod))) :
    BoundedFrom B Q k pre (Reader.sizeProduct a b >>= f) := by
  intro r hr h
  refine BoundedRun.bind ?_ fun c r' l hres => ?_
  · rw [Reader.sizeProduct_apply]
    refine .stay hr.pos_le _ (by simp [ReadEvent.InBounds]) ?_
    intro hQ hlt c d hcd
    obtain ⟨rfl, rfl⟩ : c = a ∧ d = b := by simpa using hcd
    exact hp r h hQ hlt
  · rw [Reader.sizeProduct_apply, Res.mk.injEq] at hres
    obtain ⟨hc, rfl, -⟩ := hres
    obtain rfl := Out.ret.inj hc
    exact hf r hr h

theorem ensureBytes {n : Nat} {f : Bool → ReadM α}
    (ht : BoundedFrom B Q k (fun r => pre r ∧ r.error = .none ∧ n ≤ r.remaining) (f true))
    (hf : Bounded B Q k (f false)) : BoundedFrom B Q k pre (Reader.ensureBytes n >>= f) := by
  intro r hr h
  have hens := Bounded.ensureBytes (B := B) (Q := Q) n r hr
  refine hens.bind fun ok r' l hres => ?_
  have hr' := hens.ready hr
  rw [hres] at hr'
  rcases Reader.ensureBytes_returns hres with ⟨rfl, he, hn, rfl⟩ | ⟨rfl, -⟩
  · exact ht r' hr' ⟨h, he, hn⟩
  · exact hf r' hr'

theorem checkStringLength {n unitSize : Nat} {f : Bool → ReadM α}
    (ht : BoundedFrom B Q k (Reader.StringOk n unitSize) (f true))
    (hf : Bounded B Q k (f false)) :
    Bounded B Q k (Reader.checkStringLength n unitSize >>= f) := by
  refine (Bounded.checkStringLength n unitSize).bindFrom fun _ ok r' l _ hres hr' => ?_
  rcases Reader.checkStringLength_returns hres with ⟨rfl, rfl, hok⟩ | ⟨rfl, -⟩
  · exact ht r' hr' hok
  · exact hf r' hr'

theorem readCollectionLength {min : Nat} {f : Int → ReadM α}
    (ht : ∀ len, 0 < len → len < 2 ^ 31 →
      BoundedFrom B Q k (fun r => r.error = .none ∧ Reader.LengthOk min len r) (f len))
    (hf : ∀ len, len ≤ 0 → Bounded B Q k (f len)) :
    Bounded B Q k (Reader.readCollectionLength min >>= f) := by
  refine (Bounded.readCollectionLength min).bindFrom fun _ len r' l _ hres hr' => ?_
  by_cases hlen : len ≤ 0
  · exact hf len hlen r' hr'
  · rcases Reader.readCollectionLength_returns hres with
      ⟨he, -, rfl, hraw, rfl | hok⟩ | ⟨hle, -⟩
    · exact absurd (by decide) hlen
    · exact ht len (by omega) (hraw ▸ Reader.asInt32_lt _) _ hr' ⟨he, hok⟩
    · exact absurd hle hlen

end BoundedFrom

namespace Bounded

theorem readUtf16String (units : Nat) : Bounded B Q k (Reader.readUtf16String units) := by
  refine BoundedFrom.checkStringLength ?_ (pure _)
  refine BoundedFrom.sizeProduct (fun r hok _ hlt => ?_) (.ensureBytes ?_ (pure _))
  · have hunits := hok.present (by decide)
    have hrem : r.remaining ≤ r.size := Nat.sub_le _ _
    omega
  refine .tell (fun _ => trivial) (by simp) (.get fun _ => .tell (fun _ => trivial) (by simp) ?_)
  rintro r hr ⟨hok, he, -⟩
  have hunits := hok.present (by decide)
  obtain ⟨l, hloop, hcur⟩ := Reader.utf16Loop_ok (B := B) units [] r he (by omega)
  rw [hloop]
  have hpos := hr.pos_le
  have hrem : r.remaining = r.size - r.pos := rfl
  exact .move _ _ (by omega) (by omega) hcur

theorem readString : Bounded B Q k Reader.readString := by
  refine (readRaw 4).bind fun n => bind (get.bind fun _ => pure _) fun b => ?_
  refine Prog.Closed.ite (fun _ => pure _) fun _ => ?_
  refine Prog.Closed.ite (fun _ => pure _) fun _ => ?_
  refine Prog.Closed.ite (fun _ => pure _) fun _ => ?_
  refine Prog.Closed.ite (fun _ => (readUtf16String _).bind fun _ => pure _) fun _ => ?_
  refine (readRaw 4).bind fun _ => (checkStringLength _ 1).bind fun ok => ?_
  refine Prog.Closed.ite (fun _ => pure _) fun _ => (takeBytes _).bind fun o => ?_
  cases o with
  | none => exact pure _
  | some bs => exact bind (tell (fun _ => trivial) (by simp)) fun _ => pure _

theorem readRaws (w : Nat) : ∀ count, Bounded B Q k (Reader.readRaws w count)
  | 0 => pure _
  | count + 1 => (readRaw w).bind fun _ => (readRaws w count).bind fun _ => pure _

/-- A copy of bytes whose presence has been checked. -/
theorem copyBump {n : Nat} (f : List UInt8 → α) :
    BoundedFrom B Q k (fun r => n ≤ r.remaining)
      (do let bs ← Reader.copy n; Reader.bump n; return f bs : ReadM α) := by
  intro r hr hn
  have hn' : n ≤ r.size - r.pos := hn
  have hpos := hr.pos_le
  have h := BoundedRun.move (B := B) (Q := Q) (f (r.rest.take n)) (r := r)
    (r.pos + n) (l := [.access r.pos n, .moved (r.pos + n)]) (by omega) (by omega)
    (by simp only [List.mem_cons, List.not_mem_nil, or_false, forall_eq_or_imp, forall_eq,
          ReadEvent.Cursor]; omega)
  simpa [Reader.copy, Reader.bump, Reader.setPos] using h

theorem readContiguous (w count : Nat) :
    BoundedFrom B Q k (fun r => (Q → r.size < B.sizeMod → count * w < B.sizeMod) ∧
      count * w % B.sizeMod ≤ r.remaining) (Reader.readContiguous w count) := by
  intro r hr hpre
  refine (ask r hr).bind fun B' r' l hres => ?_
  obtain ⟨hB, rfl, -⟩ := (Res.mk.injEq ..).mp hres
  obtain rfl := Out.ret.inj hB
  by_cases he : B.endian = .little
  · rw [if_pos he]
    have hcopy := copyBump (B := B) (Q := Q) (k := k) (n := count * w % B.sizeMod)
      (Reader.splitWords w count)
    exact BoundedFrom.sizeProduct (fun r' (h : r' = r) => h ▸ hpre.1)
      (fun r' hr' (h : r' = r) => hcopy r' hr' (h ▸ hpre.2)) r hr rfl
  · rw [if_neg he]
    exact readRaws w count r hr

theorem readVector {w : Nat} (hw : 0 < w) : Bounded B Q k (Reader.readVector w) := by
  refine BoundedFrom.readCollectionLength (fun len hlen hlt => ?_) fun len hlen => ?_
  · have hfit : ∀ r, r.error = .none ∧ Reader.LengthOk w len r → r.size < B.sizeMod →
        len.toNat * w < B.sizeMod := fun r h hlt => by
      have hmul := Nat.mul_le_of_le_div _ _ _ (h.2.present hw)
      have hrem : r.remaining ≤ r.size := Nat.sub_le _ _
      omega
    rw [if_neg (Int.not_le.mpr hlen)]
    refine .sizeProduct (fun r h _ => hfit r h) (.ensureBytes ?_ (pure _))
    refine .get fun _ => .tell (fun _ => trivial) (by simp) (.tell (fun _ => trivial) (by simp) ?_)
    exact fun r hr h => readContiguous w _ r hr ⟨fun _ => hfit r h.1, h.2.2⟩
  · rw [if_pos hlen]
    exact pure _

theorem readVectorBool : Bounded B Q k Reader.readVectorBool := by
  refine BoundedFrom.readCollectionLength (fun len hlen hlt => ?_) fun len hlen => ?_
  · rw [if_neg (Int.not_le.mpr hlen)]
    refine .ensureBytes (.get fun _ => .tell (fun _ => trivial) (by simp)
      (.tell (fun _ => trivial) (by simp) ?_)) (pure _)
    exact fun r hr h => copyBump _ r hr h.2.2
  · rw [if_pos hlen]
    exact pure _

theorem skipElements (w : Nat) (skipCount : Int) :
    BoundedFrom B Q k (fun r => Q → r.size < B.sizeMod → skipCount.toNat * w < B.sizeMod)
      (Reader.skipElements w skipCount) := by
  refine Prog.Closed.ite (P := fun m => BoundedFrom B Q k _ m) (fun _ => ?_)
    fun _ => .of_bounded (pure _)
  exact .sizeProduct (fun _ h => h) (.of_bounded (advance _))

/-- The number of elements `ReadArray` stores. -/
def storedCount (len maxCount : Int) : Int := if len ≤ maxCount then len else maxCount

/-- What `ReadArray` skips does not overflow a `size_t`: a `std::array` that big
does not exist. -/
theorem skip_lt {n w : Nat} {len : Int} (hw : 0 < w) (hw8 : w ≤ 8) (hn : n * w < B.sizeMod)
    (hlen : 0 < len) (hlt : len < 2 ^ 31) (hmul : len.toNat * w < B.sizeMod) :
    (asInt32 (len - storedCount len (asInt32 n))).toNat * w < B.sizeMod := by
  have hskip := Reader.asInt32_lt (len - storedCount len (asInt32 n))
  by_cases hneg : asInt32 n < 0
  · -- the cast of `n` overflowed, so `n` is at least `2 ^ 31`
    have hbig : 2 ^ 31 ≤ n := by
      by_contra hsmall
      rw [Reader.asInt32_of_lt (by omega) (by omega)] at hneg
      omega
    cases hB : B.size with
    | w32 =>
        simp only [Build.sizeMod, hB, SizeWidth.bits] at hn ⊢
        obtain rfl : w = 1 := by
          by_contra hne
          have : n * 2 ≤ n * w := Nat.mul_le_mul_left n (by omega)
          omega
        omega
    | w64 =>
        simp only [Build.sizeMod, hB, SizeWidth.bits]
        have hle : (asInt32 (len - storedCount len (asInt32 n))).toNat ≤ 2 ^ 31 := by omega
        have := Nat.mul_le_mul hle hw8
        omega
  · have hle : (asInt32 (len - storedCount len (asInt32 n))).toNat ≤ len.toNat := by
      unfold storedCount
      rw [Reader.asInt32_of_lt (by split <;> omega) (by split <;> omega)]
      split <;> omega
    exact Nat.lt_of_le_of_lt (Nat.mul_le_mul_right w hle) hmul

theorem readArray {n w : Nat} (hw : 0 < w) (hw8 : w ≤ 8) (hA : Q → n * w < B.sizeMod) :
    Bounded B Q k (Reader.readArray w (asInt32 n)) := by
  refine BoundedFrom.readCollectionLength (fun len hlen hlt => ?_) fun len hlen => ?_
  · rw [if_neg (Int.not_le.mpr hlen)]
    rintro r hr ⟨he, hok⟩
    have hmul := Nat.mul_le_of_le_div _ _ _ (hok.present hw)
    have hrem : r.remaining ≤ r.size := Nat.sub_le _ _
    have hskip : Q → r.size < B.sizeMod →
        (asInt32 (len - storedCount len (asInt32 n))).toNat * w < B.sizeMod := fun hQ hsize =>
      skip_lt hw hw8 (hA hQ) hlen hlt (Nat.lt_of_le_of_lt (hmul.trans hrem) hsize)
    -- the elements stored, then the elements skipped
    have hstored : Q → r.size < B.sizeMod →
        (storedCount len (asInt32 n)).toNat * w < B.sizeMod := fun _ hsize => by
      have hle : (storedCount len (asInt32 n)).toNat ≤ len.toNat := by
        unfold storedCount
        split <;> omega
      have := Nat.mul_le_mul_right w hle
      omega
    refine Prog.Closed.ite (P := fun m => BoundedRun B Q r (m B r)) (fun _ => ?_) fun _ => ?_
    · refine (BoundedFrom.sizeProduct (fun r' (h : r' = r) => h ▸ hstored) ?_ :
        BoundedFrom B Q k _ _) r hr rfl
      refine .ensureBytes ?_ (pure _)
      rintro r' hr' ⟨rfl, -, hens⟩
      have hread := readContiguous w (storedCount len (asInt32 n)).toNat r' hr' ⟨hstored, hens⟩
      refine hread.bind fun a r₁ l hres => ?_
      have hr₁ := hread.ready hr'
      have hs₁ := hread.size_eq
      rw [hres] at hr₁ hs₁
      exact (skipElements w _).bind (fun _ => pure _) r₁ hr₁
        fun hQ hlt => hskip hQ (hs₁.symm.trans_lt hlt)
    · exact (skipElements w _).bind (fun _ => pure _) r hr hskip
  · rw [if_pos hlen]
    exact pure _

theorem forWhile {stop : MemoryPackReader → Bool} {body : α → ReadM α}
    (hb : ∀ a, Bounded B Q k (body a)) : ∀ n a, Bounded B Q k (Prog.forWhile stop body n a)
  | 0, a => pure a
  | n + 1, a => get.bind fun _ => Prog.Closed.ite (fun _ => pure _) fun _ =>
      (hb a).bind fun a' => forWhile hb n a'

theorem elements {min : Nat} {reserve counted : Bool} {element : ReadM β}
    {store : α → β → α} {a : α} (he : Bounded B Q k element) :
    Bounded B Q k (Reader.readElements min reserve counted element store a) := by
  refine (readCollectionLength min).bind fun len => ?_
  refine Prog.Closed.ite (fun _ => pure _) fun _ => ?_
  have hbody : ∀ a, Bounded B Q k (do
      let v ← element
      if counted then Prog.tell (.elements 1)
      return store a v : ReadM α) := fun a => he.bind fun v =>
    Prog.Closed.ite (fun _ => bind (tell (fun _ => trivial) (by simp)) fun _ => pure _)
      fun _ => pure _
  exact Prog.Closed.ite (fun _ => get.bind fun _ =>
    bind (tell (fun _ => trivial) (by simp)) fun _ => forWhile hbody _ a) fun _ => forWhile hbody _ a

theorem readNullableOf (t : Ty) : Bounded B Q k (Reader.readNullableOf t) := by
  have nullable : ∀ align size, Bounded B Q k (Reader.readNullable align size) := by
    intro align size
    refine (takeBytes _).bind fun o => ?_
    cases o with
    | none => exact pure _
    | some src => exact Prog.Closed.ite (fun _ => pure _) fun _ => pure _
  cases t with
  | scalar s =>
      refine (nullable s.size s.size).bind fun o => ?_
      cases o with
      | none => exact pure _
      | some bs => exact ask.bind fun _ => pure _
  | unmanaged u =>
      refine (nullable u.align u.size).bind fun o => ?_
      cases o <;> exact pure _
  | _ => exact pure _

theorem peekIsNull : Bounded B Q k Reader.peekIsNull := by
  intro r hr
  by_cases h1 : 1 ≤ r.remaining
  · have hpos := Reader.pos_le_of_le_remaining h1 Nat.one_pos
    rw [Reader.peekIsNull_ok h1]
    exact .stay hr.pos_le _ (by simpa [ReadEvent.InBounds] using hpos) (by simp)
  · rw [Reader.peekIsNull_end h1]
    exact pure _ r hr

theorem nullObject {payload : ReadM Val} (hp : Bounded B Q k payload) :
    Bounded B Q k (Reader.nullObjectDeserialize payload) := by
  refine peekIsNull.bind fun b => Prog.Closed.ite (fun _ => ?_) fun _ => hp.bind fun _ => pure _
  refine bind (bind (takeBytes 1) fun o => ?_) fun _ => pure _
  cases o <;> exact pure _

theorem nullCollectionTest : Bounded B Q k Reader.nullCollectionTest := by
  intro r hr
  by_cases h4 : 4 ≤ r.remaining
  · by_cases he : r.error = .none
    · have hpos := Reader.pos_le_of_le_remaining h4 (by decide)
      rw [Reader.nullCollectionTest_ok he h4]
      exact .stay hr.pos_le _ (by simpa [ReadEvent.InBounds] using hpos) (by simp)
    · rw [Reader.nullCollectionTest_failed he h4]
      exact pure _ r hr
  · rw [Reader.nullCollectionTest_short h4]
    exact pure _ r hr

theorem nullCollection {payload : ReadM Val} (hp : Bounded B Q k payload) :
    Bounded B Q k (Reader.nullCollectionDeserialize payload) := by
  rw [Reader.nullCollectionDeserialize_eq]
  refine nullCollectionTest.bind fun b => Prog.Closed.ite (fun _ => ?_) fun _ =>
    hp.bind fun _ => pure _
  exact (advance 4).bind fun _ => pure _

theorem undeclaredUnion (tag : UInt16) (v : Val) :
    Bounded B Q k (Reader.undeclaredUnion tag v) :=
  bind (tell (fun _ => trivial) (by simp)) fun _ => get.bind fun _ => (advance _).bind fun _ =>
    bind (tell (fun _ => trivial) (by simp)) fun _ => pure _

theorem readRules :
    ReadRules (fun {α} _ => Bounded B Q k (α := α))
      (Ty.ArrayIs fun n w => Q → n * w < B.sizeMod) where
  pure := pure
  bind := bind
  weaken := fun hm _ => hm
  takeBytes := takeBytes
  readRaw := readRaw
  failWith := fun _ a hc => failWith hc a
  advance := advance
  readString := readString
  readVector := readVector
  readVectorBool := readVectorBool
  readArray := fun {n s} hA => readArray s.size_pos s.size_le (hA n s rfl)
  readNullableOf := fun _ _ => readNullableOf _
  elements := fun _ he => elements he
  nullCollection := nullCollection
  nullObject := nullObject
  undeclaredUnion := undeclaredUnion

/-! ### User types -/

theorem objectBody {v : Val} {members : ReadM (List Val)} (hm : Bounded B Q k members) :
    Bounded B Q k (Reader.objectBody v members) := by
  have modify : ∀ f : MemoryPackReader → UInt32, Bounded B Q k
      (Prog.modify fun r => { r with depth := f r } : ReadM Unit) := fun f r hr =>
    ⟨by simp, rfl, rfl, Nat.le_refl _, hr.pos_le, id, by simp, by simp⟩
  have enter : Bounded B Q k Reader.enterObject := by
    refine get.bind fun r => bind (tell (fun _ => trivial) (by simp)) fun _ => ?_
    refine (modify fun r => r.depth + 1).bind fun _ => get.bind fun r => ?_
    exact Prog.Closed.ite (fun _ => failWith (by decide) _) fun _ => pure _
  have leave : Bounded B Q k Reader.leaveObject := by
    have h := modify fun r => if r.depth > 0 then r.depth - 1 else r.depth
    have heq : Reader.leaveObject = (Prog.modify fun r => { r with
        depth := if r.depth > 0 then r.depth - 1 else r.depth } : ReadM Unit) := by
      funext B r
      by_cases hd : r.depth > 0 <;> simp [Reader.leaveObject, hd]
    rwa [heq]
  refine enter.bind fun ok => Prog.Closed.ite (fun _ => pure _) fun _ => ?_
  exact bind (tell (fun _ => trivial) (by simp)) fun _ => hm.bind fun vs =>
    bind (tell (fun _ => trivial) (by simp)) fun _ => leave.bind fun _ => pure _

theorem readMembers {S : Schema} {read : Ty → Val → ReadM Val} (count : Nat) :
    ∀ (ts : List Ty) (index : Nat) (vs : List Val),
      (index < count → ∀ t ∈ ts, ∀ v, Bounded B Q k (read t v)) →
      Bounded B Q k (Reader.readMembers S read count index ts vs)
  | [], _, _, _ => pure _
  | t :: ts, index, vs, h => by
      have hrest := readMembers (S := S) count ts (index + 1) vs.tail
        fun hlt u hu => h (by omega) u (List.mem_cons_of_mem t hu)
      exact Prog.Closed.ite
        (fun hlt => (h hlt t List.mem_cons_self _).bind fun _ => hrest.bind fun _ => pure _)
        fun _ => bind (tell (fun _ => trivial) (by simp)) fun _ => (pure _).bind fun _ =>
          hrest.bind fun _ => pure _

theorem readObjectHeader : Bounded B Q k Reader.readObjectHeader := readRules.readObjectHeader

/-- The header byte pays for the recursion: with it read, one byte less is left;
without it, the count is zero and no member is read. -/
theorem defineDeserialize {S : Schema} {read : Ty → Val → ReadM Val} {i : Nat} {v : Val}
    (h : ∀ t ∈ (S.decl i).members, ∀ v, Bounded B Q k (read t v)) :
    Bounded B Q (k + 1) (Reader.defineDeserialize S read i v) := by
  refine readObjectHeader.bindFrom fun r header r' l hr hres hr' => ?_
  refine Prog.Closed.ite (P := fun m => BoundedRun B Q r' (m B r')) (fun _ => pure _ r' hr') fun _ => ?_
  rcases Reader.readObjectHeader_returns hres with ⟨-, h1, rfl, -⟩ | ⟨hcount, -⟩
  · refine objectBody (readMembers _ _ 0 v.items fun _ => h) _ ⟨hr'.pos_le, ?_⟩
    have hlt := hr.lt
    rw [Reader.remaining_add]
    omega
  · refine objectBody (readMembers _ _ 0 v.items fun hlt => ?_) r' hr'
    rw [hcount] at hlt
    exact absurd hlt (by decide)

theorem defineEmptyDeserialize {S : Schema} {i : Nat} {v : Val} :
    Bounded B Q k (Reader.defineEmptyDeserialize S i v) :=
  readObjectHeader.bind fun _ => Prog.Closed.ite (fun _ => pure _) fun _ =>
    bind (tell (fun _ => trivial) (by simp)) fun _ => pure _

end Bounded

/-! ## Bounds of `Read<T>` -/

/-- The `std::array`s of the type are objects a target with this `size_t` can hold. -/
def Ty.FitsIn (B : Build) (t : Ty) : Prop := t.ArraysIn fun n w => n * w < B.sizeMod

def Schema.FitsIn (B : Build) (S : Schema) : Prop :=
  ∀ i, ∀ t ∈ (S.decl i).members, t.FitsIn B

/-- An input of less than `fuel` remaining bytes never exhausts `fuel` nested user
objects. -/
theorem Bounded.readObject {S : Schema} (hS : S.NoVersionTolerant) (hfit : Q → S.FitsIn B) :
    ∀ (fuel i : Nat) (v : Val), Bounded B Q fuel (Reader.readObject S fuel i v)
  | 0, _, _ => fun _ hr => absurd hr.lt (Nat.not_lt_zero _)
  | fuel + 1, i, v => by
      rw [Reader.readObject]
      split
      · refine defineDeserialize fun t ht v => ?_
        exact readRules.readTy (readObject hS hfit fuel) t
          (Ty.ArraysIn.partsIn fun n s hm hQ => hfit hQ i t ht n s hm) v
      · exact defineEmptyDeserialize
      · next h => exact absurd h (hS i)

theorem Bounded.read {S : Schema} (hS : S.NoVersionTolerant) (hfit : Q → S.FitsIn B) {t : Ty}
    (ht : Q → t.FitsIn B) (v : Val) {r : MemoryPackReader} (hr : r.pos ≤ r.size) :
    BoundedRun B Q r (Reader.read S t v B r) :=
  readRules.readTy (readObject hS hfit (r.size + 1)) t
    (Ty.ArraysIn.partsIn fun n s hm hQ => ht hQ n s hm) v r ⟨hr, Nat.lt_succ_of_le (Nat.sub_le _ _)⟩

end MemoryPack
