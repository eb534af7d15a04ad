import MemoryPack.Reader.Builds
import MemoryPack.Reader.Fuel

/-!
# A successful decode depends only on the bytes it consumed

Several checks compare a length with `Remaining()`, so with bytes after the value.
They never decide a decode that succeeds: what they ask for is later consumed.
`Local n m` says so of one program, in the exception build: where `m` returns, it
consumed at least `n` bytes and returns the same on every input that agrees on the
consumed ones. The minima `n` are what the collection loops divide by.
-/

namespace MemoryPack

open Effect

/-! ## Local programs -/

/-- `m` returned `a` from `r` and left `r'`, and would on any input that starts with
the bytes up to `r'.pos`. -/
structure LocalRun (B : Build) (n : Nat) {α : Type} (m : ReadM α) (r : MemoryPackReader) (a : α)
    (r' : MemoryPackReader) : Prop where
  error : r'.error = .none
  data : r'.data = r.data
  consumed : r.pos + n ≤ r'.pos
  le_size : r'.pos ≤ r.size
  same : ∀ y : List UInt8, r'.pos ≤ y.length → y.take r'.pos = r.data.take r'.pos →
    ∃ l, m B { r with data := y } = ⟨.ret a, { r' with data := y }, l⟩

/-- No union header of the run carried an undeclared tag. -/
def TagsDeclared (l : List ReadEvent) : Prop := ∀ tag, .undeclaredTag tag ∉ l

def Local (B : Build) (n : Nat) {α : Type} (m : ReadM α) : Prop :=
  ∀ ⦃r a r' l⦄, r.error = .none → r.pos ≤ r.size → r.size < B.sizeMod →
    m B r = ⟨.ret a, r', l⟩ → TagsDeclared l → LocalRun B n m r a r'

def ReadEvent.isDeclared : ReadEvent → Bool
  | .undeclaredTag _ => false
  | _ => true

theorem tagsDeclared_of_all {l : List ReadEvent} (h : l.all ReadEvent.isDeclared = true) :
    TagsDeclared l :=
  fun _ hmem => absurd (List.all_eq_true.mp h _ hmem) (by simp [ReadEvent.isDeclared])

variable {B : Build} {α β : Type} {n k : Nat}

theorem TagsDeclared.append {l₁ l₂ : List ReadEvent} (h : TagsDeclared (l₁ ++ l₂)) :
    TagsDeclared l₁ ∧ TagsDeclared l₂ :=
  ⟨fun tag h' => h tag (List.mem_append_left _ h'), fun tag h' => h tag (List.mem_append_right _ h')⟩

/-- In the exception build a program that returned has not failed. -/
theorem Sync.error_none {m : ReadM α} (h : Sync m) (hB : B.exceptions = true)
    {r r' : MemoryPackReader} {a : α} {l : List ReadEvent} (he : r.error = .none)
    (hres : m B r = ⟨.ret a, r', l⟩) : r'.error = .none := by
  have hBt : B.throwing = B := by rw [Build.throwing, ← hB]
  exact (h.ret (B := B) he (by rw [hBt]; exact hres)).1

theorem take_eq_of_le {x y : List UInt8} {p q : Nat} (h : y.take q = x.take q) (hpq : p ≤ q) :
    y.take p = x.take p := by
  have hp := congrArg (List.take p) h
  rwa [List.take_take, List.take_take, Nat.min_eq_left hpq] at hp

theorem rest_take_eq {x y : List UInt8} {p k : Nat} (h : y.take (p + k) = x.take (p + k)) :
    (y.drop p).take k = (x.drop p).take k := by
  have hd := congrArg (List.drop p) h
  rwa [List.drop_take, List.drop_take, Nat.add_sub_cancel_left] at hd

/-! ## Programs that consume a known number of bytes -/

/-- In the exception build `m` consumes exactly `n` bytes and computes its result from
them, under a condition on the options alone. -/
structure Exact (B : Build) (n : Nat) (c : ReaderOptions → Prop) (g : List UInt8 → α)
    (m : ReadM α) : Prop where
  ok : ∀ {r : MemoryPackReader}, r.error = .none → c r.options → n ≤ r.remaining → ∃ l,
    m B r = ⟨.ret (g (r.rest.take n)), { r with pos := r.pos + n }, l⟩
  inv : ∀ {r a r' l}, r.error = .none → r.size < B.sizeMod → m B r = ⟨.ret a, r', l⟩ →
    c r.options ∧ n ≤ r.remaining

namespace Exact

theorem takeBytes (hB : B.exceptions = true) (n : Nat) :
    Exact B n (fun _ => True) some (Reader.takeBytes n) where
  ok := fun he _ hn => ⟨_, Reader.takeBytes_ok he hn⟩
  inv := fun he _ hres => by
    rcases Reader.takeBytes_returns hres with ⟨-, hn, -⟩ | ⟨-, hne⟩
    · exact ⟨trivial, hn⟩
    · exact absurd ((Sync.basicRules.takeBytes n).error_none hB he hres) hne

theorem readRaw (hB : B.exceptions = true) (w : Nat) :
    Exact B w (fun _ => True) LittleEndian.leNat (Reader.readRaw w) where
  ok := fun he _ hn => ⟨_, Reader.readRaw_ok he hn⟩
  inv := fun he _ hres => by
    rcases Reader.readRaw_returns hres with ⟨-, hn, -⟩ | ⟨-, hne⟩
    · exact ⟨trivial, hn⟩
    · exact absurd ((Sync.basicRules.readRaw w).error_none hB he hres) hne

theorem advance (hB : B.exceptions = true) (n : Nat) :
    Exact B n (fun _ => True) (fun _ => ()) (Reader.advance n) where
  ok := fun he _ hn => ⟨_, Reader.advance_ok he hn⟩
  inv := fun he _ hres => ⟨trivial, by
    by_contra hn
    rw [Reader.advance_short he (Nat.not_le.mp hn), Reader.fail_throws hB] at hres
    simp at hres⟩

/-- The elements of `ReadVector`, behind its length. -/
theorem vectorPayload (hB : B.exceptions = true) {w count : Nat} (hlt : count * w < B.sizeMod) :
    Exact B (count * w) (fun _ => True) (Reader.splitWords w count) (do
      if !(← Reader.ensureBytes (← Reader.sizeProduct count w)) then return []
      Prog.tell (.alloc count w (← Prog.get).remaining)
      Prog.tell (.elements count)
      Reader.readContiguous w count : ReadM (List Nat)) where
  ok := fun he _ hn => by
    obtain ⟨l, hread⟩ := Reader.readContiguous_ok (B := B) w _ he hn hlt
    exact ⟨_, by
      simp only [Prog.bind_apply, Reader.sizeProduct_apply, Res.bind_ret, Nat.mod_eq_of_lt hlt,
        Reader.ensureBytes_ok he hn, Bool.not_true, Bool.false_eq_true, if_false, Prog.get_apply,
        Prog.tell_apply, hread, Res.after_mk, Reader.splitWords_take]
      rfl⟩
  inv := fun he _ hres => ⟨trivial, by
    by_contra hn
    simp [Reader.sizeProduct_apply, Nat.mod_eq_of_lt hlt,
      Reader.ensureBytes_short he (Nat.not_le.mp hn), Reader.fail_throws hB] at hres⟩

theorem vectorBoolPayload (hB : B.exceptions = true) {count : Nat} :
    Exact B count (fun _ => True) (List.map fun b => if b ≠ 0 then 1 else 0) (do
      if !(← Reader.ensureBytes count) then return []
      Prog.tell (.alloc count 1 (← Prog.get).remaining)
      Prog.tell (.elements count)
      let bs ← Reader.copy count
      Reader.bump count
      return bs.map fun b => if b ≠ 0 then 1 else 0 : ReadM (List Nat)) where
  ok := fun he _ hn => ⟨_, by
    simp only [Prog.bind_apply, Reader.ensureBytes_ok he hn, Res.bind_ret, Bool.not_true,
      Bool.false_eq_true, if_false, Prog.get_apply, Prog.tell_apply, Reader.copy, Reader.bump,
      Reader.setPos, Prog.modify_apply, Prog.pure_apply, Res.after_mk]
    rfl⟩
  inv := fun he _ hres => ⟨trivial, by
    by_contra hn
    simp [Reader.ensureBytes_short he (Nat.not_le.mp hn), Reader.fail_throws hB] at hres⟩

theorem nextUnits_take (units : Nat) (bs : List UInt8) :
    Reader.nextUnits units (bs.take (2 * units)) = Reader.nextUnits units bs := by
  rw [Reader.nextUnits, Reader.splitWords_take_of_le 2 bs (by omega), Reader.nextUnits]

theorem readUtf16String (hB : B.exceptions = true) (units : Nat) :
    Exact B (2 * units) (fun o => units ≤ o.maxStringLength.toNat)
      (fun bs => (utf16Codepoints (Reader.nextUnits units bs)).flatMap utf8Codepoint)
      (Reader.readUtf16String units) where
  ok := fun he hc hn => by
    rw [nextUnits_take]
    exact Reader.readUtf16String_ok he ⟨hc, fun _ => by omega⟩
  inv := fun he _ hres => by
    obtain ⟨ok, r₁, l₁, l₂, hcheck, -, -⟩ := Prog.bind_eq_ret hres
    rcases Reader.checkStringLength_returns hcheck with ⟨-, -, hok⟩ | ⟨-, hne⟩
    · have := hok.present (by decide)
      exact ⟨hok.limit, by omega⟩
    · exact absurd ((Sync.basicRules.checkStringLength units 2).error_none hB he hcheck) hne

theorem utf8Payload (hB : B.exceptions = true) (byteCount : Nat) :
    Exact B byteCount (fun o => byteCount ≤ o.maxStringLength.toNat) some (do
      if !(← Reader.checkStringLength byteCount 1) then return some []
      match ← Reader.takeBytes byteCount with
      | none => return some []
      | some bs =>
          Prog.tell (.acceptedString byteCount 1)
          return some bs : ReadM (Option (List UInt8))) where
  ok := fun {r} he hc hn => by
    have hok : Reader.StringOk byteCount 1 r := ⟨hc, fun _ => by rwa [Nat.div_one]⟩
    exact ⟨_, by
      simp only [Prog.bind_apply, Reader.checkStringLength_ok hok, Res.bind_ret, Bool.not_true,
        Bool.false_eq_true, if_false, Reader.takeBytes_ok he hn, Prog.tell_apply,
        Prog.pure_apply, Res.after_mk]
      rfl⟩
  inv := fun he _ hres => by
    obtain ⟨ok, r₁, l₁, l₂, hcheck, -, -⟩ := Prog.bind_eq_ret hres
    rcases Reader.checkStringLength_returns hcheck with ⟨-, -, hok⟩ | ⟨-, hne⟩
    · have hn := hok.present (by decide)
      rw [Nat.div_one] at hn
      exact ⟨hok.limit, hn⟩
    · exact absurd ((Sync.basicRules.checkStringLength byteCount 1).error_none hB he hcheck) hne

theorem nullableSize_pos {align size : Nat} (ha : 0 < align) : 1 ≤ nullableSize align size := by
  have hdiv : 1 ≤ (align + size + align - 1) / align := (Nat.one_le_div_iff ha).mpr (by omega)
  exact Nat.mul_le_mul hdiv ha

end Exact

namespace Local

/-- A program that leaves the reader alone and does not look at the input. -/
theorem of_still {m : ReadM α} (h : ∀ r, ∃ a l, ∀ y, ∃ l',
    m B r = ⟨.ret a, r, l⟩ ∧ m B { r with data := y } = ⟨.ret a, { r with data := y }, l'⟩) :
    Local B 0 m := by
  intro r a r' l he hpos _ hres _
  obtain ⟨a', l', hy⟩ := h r
  obtain ⟨-, hr, -⟩ := hy []
  rw [hr, Res.mk.injEq] at hres
  obtain ⟨ha, rfl, -⟩ := hres
  obtain rfl := Out.ret.inj ha
  refine ⟨he, rfl, Nat.le_refl _, hpos, fun y _ _ => ?_⟩
  obtain ⟨l'', -, hsame⟩ := hy y
  exact ⟨l'', hsame⟩

theorem pure (a : α) : Local B 0 (Pure.pure a : ReadM α) :=
  of_still fun _ => ⟨a, [], fun _ => ⟨[], rfl, rfl⟩⟩

theorem tell (e : ReadEvent) : Local B 0 (Prog.tell e : ReadM Unit) :=
  of_still fun _ => ⟨(), [e], fun _ => ⟨[e], rfl, rfl⟩⟩

theorem failed : Local B 0 Reader.failed :=
  of_still fun r => ⟨r.failed, [], fun _ => ⟨[], rfl, rfl⟩⟩

theorem host (f : Build → α) : Local B 0 (Prog.ask >>= fun B => Pure.pure (f B) : ReadM α) :=
  of_still fun _ => ⟨f B, [], fun _ => ⟨[], rfl, rfl⟩⟩

theorem weaken {m : ReadM α} (h : Local B n m) (hn : k ≤ n) : Local B k m := by
  intro r a r' l he hpos hsize hres hl
  have hrun := h he hpos hsize hres hl
  exact ⟨hrun.error, hrun.data, by have := hrun.consumed; omega, hrun.le_size, hrun.same⟩

theorem bind {m : ReadM α} {f : α → ReadM β} (hm : Local B n m) (hf : ∀ a, Local B k (f a)) :
    Local B (n + k) (m >>= f) := by
  intro r b r'' l he hpos hsize hres hl
  obtain ⟨a, r', l₁, l₂, h₁, h₂, rfl⟩ := Prog.bind_eq_ret hres
  have hm' := hm he hpos hsize h₁ hl.append.1
  have hsz : r'.size = r.size := by rw [MemoryPackReader.size, hm'.data, MemoryPackReader.size]
  have hf' := hf a hm'.error (hsz ▸ hm'.le_size) (hsz ▸ hsize) h₂ hl.append.2
  have hc := hm'.consumed
  have hc' := hf'.consumed
  refine ⟨hf'.error, hf'.data.trans hm'.data, by omega, hsz ▸ hf'.le_size,
    fun y hy hagree => ?_⟩
  obtain ⟨l₃, h₃⟩ := hm'.same y (by omega) (take_eq_of_le hagree (by omega))
  obtain ⟨l₄, h₄⟩ := hf'.same y hy (hm'.data ▸ hagree)
  exact ⟨l₃ ++ l₄, by rw [Prog.bind_apply, h₃, Res.bind_ret, h₄, Res.after_mk]⟩

theorem of_exact {m : ReadM α} {c : ReaderOptions → Prop} {g : List UInt8 → α}
    (h : Exact B n c g m) : Local B n m := by
  intro r a r' l he hpos hsize hres _
  obtain ⟨hc, hn⟩ := h.inv he hsize hres
  obtain ⟨l', hok'⟩ := h.ok he hc hn
  rw [hok', Res.mk.injEq] at hres
  obtain ⟨ha, rfl, -⟩ := hres
  obtain rfl := Out.ret.inj ha
  have hend : r.pos + n ≤ r.size := by
    have : n ≤ r.size - r.pos := hn
    omega
  refine ⟨he, rfl, Nat.le_refl _, hend, fun y hy hagree => ?_⟩
  obtain ⟨l'', hy'⟩ := h.ok (r := { r with data := y }) he hc (by
    rw [MemoryPackReader.remaining, MemoryPackReader.size]
    exact Nat.le_sub_of_add_le (by rw [Nat.add_comm]; exact hy))
  have hrest : ({ r with data := y } : MemoryPackReader).rest.take n = r.rest.take n :=
    rest_take_eq hagree
  exact ⟨l'', by rw [hy', hrest]⟩

theorem takeBytes (hB : B.exceptions = true) (n : Nat) : Local B n (Reader.takeBytes n) :=
  of_exact (.takeBytes hB n)

theorem readRaw (hB : B.exceptions = true) (w : Nat) : Local B w (Reader.readRaw w) :=
  of_exact (.readRaw hB w)

theorem advance (hB : B.exceptions = true) (n : Nat) : Local B n (Reader.advance n) :=
  of_exact (.advance hB n)

theorem failWith (hB : B.exceptions = true) {code : MemoryPackError} (n : Nat) (a : α) :
    Local B n (do Reader.fail code; return a : ReadM α) := by
  intro r b r' l _ _ _ hres _
  simp [Reader.fail_throws hB] at hres

/-- Emitting an event, which may depend on the reader, before `m`. -/
theorem tellThen {e : MemoryPackReader → ReadEvent} {m : ReadM α} (hm : Local B n m) :
    Local B n (do Prog.tell (e (← Prog.get)); m : ReadM α) := by
  intro r a r' l he hpos hsize hres hl
  have heq : ∀ s : MemoryPackReader,
      (do Prog.tell (e (← Prog.get)); m : ReadM α) B s = (m B s).after [e s] := fun _ => rfl
  rcases hm' : m B r with ⟨o, s, l'⟩
  rw [heq, hm', Res.after_mk, Res.mk.injEq] at hres
  obtain ⟨rfl, rfl, rfl⟩ := hres
  have hrun := hm he hpos hsize hm' hl.append.2
  refine ⟨hrun.error, hrun.data, hrun.consumed, hrun.le_size, fun y hy hagree => ?_⟩
  obtain ⟨l'', hsame⟩ := hrun.same y hy hagree
  exact ⟨_, by rw [heq, hsame, Res.after_mk]⟩

/-! ## Lengths -/

/-- A collection header whose elements take at least `min` bytes each: the
plausibility check asks for no more than the elements consume. -/
theorem lengthThen (hB : B.exceptions = true) {min : Nat} {f : Int → ReadM α} (hmin : 0 < min)
    (hzero : ∀ len ≤ 0, Local B 0 (f len))
    (hpos : ∀ len, 0 < len → len < 2 ^ 31 → len.toNat * min < B.sizeMod →
      Local B (len.toNat * min) (f len)) :
    Local B 4 (Reader.readCollectionLength min >>= f) := by
  intro r a r' l he hp hsize hres hl
  obtain ⟨len, r₁, l₁, l₂, hlen, hf, rfl⟩ := Prog.bind_eq_ret hres
  have he₁ := (Sync.basicRules.readCollectionLength min).error_none hB he hlen
  rcases Reader.readCollectionLength_returns hlen with ⟨-, h4, rfl, hhead, hok⟩ | ⟨-, hne⟩
  · have hsize₁ : r.pos + 4 ≤ r.size := Reader.pos_le_of_le_remaining h4 (by decide)
    -- what the rest consumes covers what the check asked for
    obtain ⟨k, hrest, hcover⟩ : ∃ k, LocalRun B k (f len) { r with pos := r.pos + 4 } a r' ∧
        (0 < len → k = len.toNat * min) := by
      by_cases hle : len ≤ 0
      · exact ⟨0, hzero len hle he hsize₁ hsize hf hl.append.2, fun h => by omega⟩
      · have hok' : Reader.LengthOk min len { r with pos := r.pos + 4 } :=
          hok.resolve_left fun h => hle (h ▸ by decide)
        have hmul := Nat.mul_le_of_le_div _ _ _ (hok'.present hmin)
        have hrem : ({ r with pos := r.pos + 4 } : MemoryPackReader).remaining ≤ r.size :=
          Nat.sub_le _ _
        have hloc := hpos len (by omega) (hhead ▸ Reader.asInt32_lt _) (by omega)
        exact ⟨_, hloc he hsize₁ hsize hf hl.append.2, fun _ => rfl⟩
    have hcons : r.pos + 4 + k ≤ r'.pos := hrest.consumed
    refine ⟨hrest.error, hrest.data, by omega, hrest.le_size, fun y hy hagree => ?_⟩
    have hbytes : (y.drop r.pos).take 4 = r.rest.take 4 :=
      rest_take_eq (take_eq_of_le hagree (by omega))
    have hoky : len = nullCollection ∨
        Reader.LengthOk min len { r with data := y, pos := r.pos + 4 } := by
      refine hok.imp_right fun hok => ⟨hok.nonneg, hok.limit, fun _ => ?_⟩
      rw [Nat.le_div_iff_mul_le hmin]
      refine Nat.le_sub_of_add_le (Nat.le_trans ?_ hy)
      rcases Int.lt_or_eq_of_le hok.nonneg with hlt | heq
      · rw [← hcover hlt]
        dsimp only
        omega
      · rw [← heq, Int.toNat_zero, Nat.zero_mul, Nat.zero_add]
        dsimp only
        omega
    obtain ⟨l₃, h₃⟩ := Reader.readCollectionLength_ok (B := B) (r := { r with data := y })
      he (Nat.le_sub_of_add_le (by dsimp only [MemoryPackReader.size]; omega))
      (hhead.trans (by rw [← hbytes]; rfl)) hoky
    obtain ⟨l₄, h₄⟩ := hrest.same y hy hagree
    exact ⟨l₃ ++ l₄, by rw [Prog.bind_apply, h₃, Res.bind_ret, h₄, Res.after_mk]⟩
  · exact absurd he₁ hne

/-- The loop over the elements, which never stops early here. -/
theorem forWhile {min : Nat} {body : α → ReadM α} (hb : ∀ a, Local B min (body a)) :
    ∀ (count : Nat) (a : α),
      Local B (count * min) (Prog.forWhile MemoryPackReader.failed body count a)
  | 0, a => by
      rw [Nat.zero_mul]
      exact pure a
  | count + 1, a => by
      have hrest := bind (hb a) fun a' => forWhile hb count a'
      intro r a' r' l he hpos hsize hres hl
      have heq : ∀ s : MemoryPackReader, s.error = .none →
          Prog.forWhile MemoryPackReader.failed body (count + 1) a B s =
            (body a >>= fun a' => Prog.forWhile MemoryPackReader.failed body count a') B s := by
        intro s hs
        exact Prog.forWhile_succ (by simp [MemoryPackReader.failed, hs])
      rw [heq r he] at hres
      have hrun := hrest he hpos hsize hres hl
      refine ⟨hrun.error, hrun.data, ?_, hrun.le_size, fun y hy hagree => ?_⟩
      · have := hrun.consumed
        rw [Nat.succ_mul]
        omega
      · obtain ⟨l', hsame⟩ := hrun.same y hy hagree
        exact ⟨l', (heq { r with data := y } he).trans hsame⟩

theorem elements (hB : B.exceptions = true) {min : Nat} {reserve counted : Bool}
    {element : ReadM β} {store : α → β → α} {a : α} (hmin : 0 < min) (he : Local B min element) :
    Local B 4 (Reader.readElements min reserve counted element store a) := by
  have hbody : ∀ a, Local B min (do
      let v ← element
      if counted then Prog.tell (.elements 1)
      return store a v : ReadM α) := fun a =>
    bind (k := 0) he fun v => Prog.Closed.ite (P := fun {_} => Local B 0)
      (fun _ => bind (k := 0) (tell _) fun _ => pure _) fun _ => pure _
  have hloop := fun count => forWhile hbody count a
  refine lengthThen hB hmin (fun len hlen => ?_) fun len hlen _ _ => ?_
  · rw [if_pos hlen]
    exact pure a
  · rw [if_neg (Int.not_le.mpr hlen)]
    exact Prog.Closed.ite (P := fun {_} => Local B _)
      (fun _ => tellThen (e := fun s => .alloc len.toNat min s.remaining) (hloop _))
      fun _ => hloop _

/-! ## Contiguous payloads -/

theorem readVector (hB : B.exceptions = true) {w : Nat} (hw : 0 < w) :
    Local B 4 (Reader.readVector w) := by
  refine lengthThen hB hw (fun len hlen => ?_) fun len hlen _ hlt => ?_
  · rw [if_pos hlen]
    exact pure _
  · rw [if_neg (Int.not_le.mpr hlen)]
    exact of_exact (.vectorPayload hB hlt)

theorem readVectorBool (hB : B.exceptions = true) : Local B 4 Reader.readVectorBool := by
  refine lengthThen hB Nat.one_pos (fun len hlen => ?_) fun len hlen _ hlt => ?_
  · rw [if_pos hlen]
    exact pure _
  · rw [if_neg (Int.not_le.mpr hlen), Nat.mul_one]
    exact of_exact (.vectorBoolPayload hB)

theorem readArray (hB : B.exceptions = true) {m w : Nat} (hw : 0 < w) (hm : m < 2 ^ 31) :
    Local B 4 (Reader.readArray w (asInt32 m)) := by
  have hmax : 0 ≤ asInt32 m := by
    rw [Reader.asInt32_of_lt (by omega) (by omega)]
    omega
  rw [Reader.readArray_eq]
  refine lengthThen hB hw (fun len hlen => ?_) fun len hlen hlt hmod => ?_
  · rw [if_pos hlen]
    exact pure _
  · rw [if_neg (Int.not_le.mpr hlen)]
    refine of_exact (c := fun _ => True)
      (g := Reader.splitWords w (if len ≤ asInt32 m then len else asInt32 m).toNat)
      ⟨fun {r} he _ hn => ?_, fun {r a r' l} he _ hres => ⟨trivial, ?_⟩⟩
    · obtain ⟨l, hread⟩ := Reader.arrayPayload_ok (B := B) he hmax hlen hlt hn hmod
      refine ⟨l, ?_⟩
      rw [hread, Reader.splitWords_take_of_le]
      have := Reader.stored_add_skipped (w := w) hmax hlen hlt
      omega
    · by_contra hn
      obtain ⟨s, l', hshort⟩ :=
        Reader.arrayPayload_short hB he hmax hlen hlt (Nat.not_le.mp hn) hmod
      simp [hshort] at hres

/-! ## Strings -/

theorem readUtf16String (hB : B.exceptions = true) (units : Nat) :
    Local B (2 * units) (Reader.readUtf16String units) := of_exact (.readUtf16String hB units)

/-- The UTF-8 payload: a plausibility check and then exactly the bytes it checked. -/
theorem utf8Payload (hB : B.exceptions = true) (byteCount : Nat) : Local B byteCount (do
    if !(← Reader.checkStringLength byteCount 1) then return some []
    match ← Reader.takeBytes byteCount with
    | none => return some []
    | some bs =>
        Prog.tell (.acceptedString byteCount 1)
        return some bs : ReadM (Option (List UInt8))) := of_exact (.utf8Payload hB byteCount)

theorem readString (hB : B.exceptions = true) : Local B 4 Reader.readString := by
  have ite : ∀ {c : Prop} [Decidable c] {m m' : ReadM (Option (List UInt8))},
      Local B 0 m → Local B 0 m' → Local B 0 (if c then m else m') := fun hm hm' =>
    Prog.Closed.ite (P := fun {_} => Local B 0) (fun _ => hm) fun _ => hm'
  refine bind (k := 0) (readRaw hB 4) fun n => bind (n := 0) (k := 0) failed fun b => ?_
  refine ite (pure _) (ite (pure _) (ite (pure _) (ite ?_ ?_)))
  · exact bind (k := 0) (weaken (readUtf16String hB _) (Nat.zero_le _)) fun _ => pure _
  · exact bind (n := 0) (k := 0) (weaken (readRaw hB 4) (Nat.zero_le _)) fun _ =>
      weaken (utf8Payload hB _) (Nat.zero_le _)

/-! ## Nulls -/

/-- A look at the next `k` bytes that decides how to go on, when either way at
least `k` bytes are consumed: it sees only consumed bytes. -/
theorem peekThen {k : Nat} {peek : ReadM Bool} {f : Bool → ReadM α} {g : List UInt8 → Bool}
    (hok : ∀ r, r.error = .none → k ≤ r.remaining → ∃ l, peek B r = ⟨.ret (g (r.rest.take k)), r, l⟩)
    (hshort : ∀ r, ¬ k ≤ r.remaining → peek B r = ⟨.ret false, r, []⟩)
    (hf : ∀ b, Local B k (f b)) : Local B k (peek >>= f) := by
  intro r a r' l he hpos hsize hres hl
  obtain ⟨b, r₁, l₁, l₂, hpeek, hrest, rfl⟩ := Prog.bind_eq_ret hres
  obtain rfl : r₁ = r := by
    by_cases hk : k ≤ r.remaining
    · obtain ⟨l', h⟩ := hok r he hk
      rw [h, Res.mk.injEq] at hpeek
      exact hpeek.2.1.symm
    · rw [hshort r hk, Res.mk.injEq] at hpeek
      exact hpeek.2.1.symm
  have hrun := hf b he hpos hsize hrest hl.append.2
  have hc := hrun.consumed
  have hend := hrun.le_size
  have hk : k ≤ r₁.remaining := Nat.le_sub_of_add_le (by omega)
  obtain ⟨l', h⟩ := hok r₁ he hk
  rw [h, Res.mk.injEq] at hpeek
  obtain rfl := Out.ret.inj hpeek.1
  refine ⟨hrun.error, hrun.data, hc, hend, fun y hy hagree => ?_⟩
  have hbytes : ({ r₁ with data := y } : MemoryPackReader).rest.take k = r₁.rest.take k :=
    rest_take_eq (take_eq_of_le hagree hc)
  obtain ⟨l₃, h₃⟩ := hok { r₁ with data := y } he
    (Nat.le_sub_of_add_le (by dsimp only [MemoryPackReader.size]; omega))
  rw [hbytes] at h₃
  obtain ⟨l₄, h₄⟩ := hrun.same y hy hagree
  exact ⟨l₃ ++ l₄, by rw [Prog.bind_apply, h₃, Res.bind_ret, h₄, Res.after_mk]⟩

theorem readByte (hB : B.exceptions = true) : Local B 1 Reader.readByte := by
  refine bind (k := 0) (takeBytes hB 1) fun o => ?_
  cases o <;> exact pure _

theorem nullObject (hB : B.exceptions = true) {payload : ReadM Val} (hp : Local B 1 payload) :
    Local B 1 (Reader.nullObjectDeserialize payload) := by
  refine peekThen (g := fun bs => bs.headD 0 = MemoryPack.nullObject)
    (fun r _ h1 => ⟨[.access r.pos 1], ?_⟩)
    (fun r h0 => Reader.peekIsNull_end h0) fun b => ?_
  · have hhead : (r.rest.take 1).headD 0 = r.rest.headD 0 := by cases r.rest <;> rfl
    rw [hhead]
    exact Reader.peekIsNull_ok h1
  · exact Prog.Closed.ite (P := fun {_} => Local B 1)
      (fun _ => bind (k := 0) (readByte hB) fun _ => pure _)
      fun _ => bind (k := 0) hp fun _ => pure _

theorem nullCollection (hB : B.exceptions = true) {payload : ReadM Val}
    (hp : Local B 4 payload) : Local B 4 (Reader.nullCollectionDeserialize payload) := by
  rw [Reader.nullCollectionDeserialize_eq]
  refine peekThen (g := fun bs => asInt32 (LittleEndian.leNat bs) = MemoryPack.nullCollection)
    (fun r he h4 => ⟨_, Reader.nullCollectionTest_ok he h4⟩)
    (fun r h4 => Reader.nullCollectionTest_short h4) fun b => ?_
  exact Prog.Closed.ite (P := fun {_} => Local B 4)
    (fun _ => bind (k := 0) (advance hB 4) fun _ => pure _)
    fun _ => bind (k := 0) hp fun _ => pure _

theorem readNullableOf (hB : B.exceptions = true) {t : Ty}
    (ht : wireNullEncoding t = .nullableValue) : Local B 1 (Reader.readNullableOf t) := by
  have nullable : ∀ {align size : Nat}, 0 < align → Local B 1 (Reader.readNullable align size) := by
    intro align size ha
    refine weaken (bind (k := 0) (takeBytes hB _) fun o => ?_) (Exact.nullableSize_pos ha)
    cases o with
    | none => exact pure _
    | some src =>
        exact Prog.Closed.ite (P := fun {_} => Local B 0) (fun _ => pure _) fun _ => pure _
  cases t with
  | scalar s =>
      refine bind (k := 0) (nullable s.size_pos) fun o => ?_
      cases o with
      | none => exact pure _
      | some bs => exact host _
  | unmanaged u =>
      refine bind (k := 0) (nullable u.align_pos) fun o => ?_
      cases o <;> exact pure _
  | _ => simp [wireNullEncoding] at ht

theorem undeclaredUnion (n : Nat) (tag : UInt16) (v : Val) :
    Local B n (Reader.undeclaredUnion tag v) := by
  intro r a r' l _ _ _ hres hl
  obtain ⟨_, r₁, l₁, l₂, htell, -, rfl⟩ := Prog.bind_eq_ret hres
  obtain ⟨-, -, rfl⟩ := (Res.mk.injEq ..).mp htell
  exact absurd List.mem_cons_self (hl tag)

theorem readRules (hB : B.exceptions = true) :
    ReadRules (fun {α} n => Local B n (α := α)) (Ty.ArrayIs fun n _ => n < 2 ^ 31) where
  pure := pure
  bind := bind
  weaken := weaken
  takeBytes := takeBytes hB
  readRaw := readRaw hB
  failWith := fun n a _ => failWith hB n a
  advance := fun n => weaken (advance hB n) (Nat.zero_le n)
  readString := readString hB
  readVector := readVector hB
  readVectorBool := readVectorBool hB
  readArray := fun {n s} hA => readArray hB s.size_pos (hA n s rfl)
  readNullableOf := fun _ => readNullableOf hB
  elements := elements hB
  nullCollection := nullCollection hB
  nullObject := nullObject hB
  undeclaredUnion := undeclaredUnion 0

/-! ## User types -/

theorem objectBody (hB : B.exceptions = true) {v : Val} {members : ReadM (List Val)}
    (hm : Local B n members) : Local B n (Reader.objectBody v members) := by
  intro r a r' l he hpos hsize hres hl
  by_cases hdeep : r.depth + 1 > r.options.maxDepth
  · simp [Reader.objectBody_deep hdeep, Reader.fail_throws hB] at hres
  · rw [Reader.objectBody_open hdeep] at hres
    rcases hmem : members B r.entered with ⟨vs | e | _, s, l'⟩ <;> rw [hmem] at hres
    · simp only [Res.bind_ret, Res.after_mk, Res.mk.injEq, Out.ret.injEq] at hres
      obtain ⟨rfl, rfl, rfl⟩ := hres
      have hrun := hm (r := r.entered) he hpos hsize hmem hl.append.2.append.1
      have hleft : s.left.error = s.error ∧ s.left.data = s.data ∧ s.left.pos = s.pos ∧
          ∀ y, ({ s with data := y } : MemoryPackReader).left = { s.left with data := y } := by
        unfold MemoryPackReader.left
        split <;> simp
      refine ⟨hleft.1.trans hrun.error, hleft.2.1.trans hrun.data, ?_, ?_, fun y hy hagree => ?_⟩
      · rw [hleft.2.2.1]
        exact hrun.consumed
      · rw [hleft.2.2.1]
        exact hrun.le_size
      · rw [hleft.2.2.1] at hy hagree
        obtain ⟨l'', hsame⟩ := hrun.same y hy hagree
        have hsame' : members B ({ r with data := y } : MemoryPackReader).entered =
            ⟨.ret vs, { s with data := y }, l''⟩ := hsame
        exact ⟨_, by
          rw [Reader.objectBody_open (r := { r with data := y }) hdeep, hsame', Res.bind_ret,
            Res.after_mk, Res.after_mk, hleft.2.2.2 y]⟩
    · simp at hres
    · simp at hres

theorem readMembers {S : Schema} {read : Ty → Val → ReadM Val} (count : Nat) :
    ∀ (ts : List Ty) (index : Nat) (vs : List Val), (∀ t ∈ ts, ∀ v, Local B 0 (read t v)) →
      Local B 0 (Reader.readMembers S read count index ts vs)
  | [], _, _, _ => pure _
  | t :: ts, index, vs, h => by
      have hrest := fun v => bind (n := 0) (k := 0) (readMembers (S := S) count ts
        (index + 1) vs.tail fun u hu => h u (List.mem_cons_of_mem t hu))
        fun vs' => pure (v :: vs')
      exact Prog.Closed.ite (P := fun {_} => Local B 0)
        (fun _ => bind (n := 0) (k := 0) (h t List.mem_cons_self _) hrest)
        fun _ => bind (n := 0) (k := 0) (tell _) fun _ => bind (n := 0) (k := 0) (pure _) hrest

theorem readObject (hB : B.exceptions = true) {S : Schema} (hS : S.NoVersionTolerant)
    (hA : ∀ i, ∀ t ∈ (S.decl i).members, t.ArraysIn fun n _ => n < 2 ^ 31) :
    ∀ (fuel i : Nat) (v : Val), Local B 1 (Reader.readObject S fuel i v)
  | 0, _, _ => fun _ _ _ _ _ _ _ hres _ => by simp [Reader.readObject] at hres
  | fuel + 1, i, v => by
      have hheader := (readRules hB).readObjectHeader
      cases hk : (S.decl i).kind with
      | define =>
          rw [Reader.readObject_define hk]
          refine bind (k := 0) hheader fun header =>
            Prog.Closed.ite (P := fun {_} => Local B 0) (fun _ => pure _) fun _ => ?_
          refine objectBody hB (readMembers _ _ 0 v.items fun t ht w => ?_)
          exact weaken ((readRules hB).readTy (readObject hB hS hA fuel) t (hA i t ht).partsIn w)
            (Nat.zero_le _)
      | defineEmpty =>
          rw [Reader.readObject_defineEmpty hk]
          exact bind (k := 0) hheader fun header =>
            Prog.Closed.ite (P := fun {_} => Local B 0) (fun _ => pure _) fun _ =>
              bind (n := 0) (k := 0) (tell _) fun _ => pure _
      | versionTolerant => exact absurd hk (hS i)

end Local

/-! ## Locality of `Read<T>` -/

/-- `std::array` sizes that survive the cast to `int32_t` in `ReadArray`. -/
def Ty.ArraysInt32 (t : Ty) : Prop := t.ArraysIn fun n _ => n < 2 ^ 31

def Schema.ArraysInt32 (S : Schema) : Prop :=
  ∀ i, ∀ t ∈ (S.decl i).members, t.ArraysInt32

/-- The exception build, from one fresh reader to another. -/
theorem read_local_throwing {S : Schema} (hS : S.NoVersionTolerant) (hSA : S.ArraysInt32)
    {B : Build} (hB : B.exceptions = true) {t : Ty} (ht : t.ArraysInt32) {v w : Val}
    {x y : List UInt8} {options : ReaderOptions} {r' : MemoryPackReader} {l : List ReadEvent}
    (hx : x.length < B.sizeMod)
    (hres : Reader.read S t v B { data := x, options := options } = ⟨.ret w, r', l⟩)
    (htags : TagsDeclared l) (hy : r'.pos ≤ y.length) (hagree : y.take r'.pos = x.take r'.pos) :
    ∃ l', Reader.read S t v B { data := y, options := options } =
      ⟨.ret w, { r' with data := y }, l'⟩ := by
  -- one bound on nested objects for both inputs
  have hfuel : ∀ z : List UInt8, z.length ≤ max x.length y.length →
      Reader.readTy S (Reader.readObject S (max x.length y.length + 1)) t v B
        { data := z, options := options } = Reader.read S t v B { data := z, options := options } :=
    fun z hz => read_eq_of_lt hS (Nat.zero_le _) (Nat.lt_succ_of_le (Nat.le_trans (Nat.sub_le _ _) hz))
  rw [← hfuel x (Nat.le_max_left _ _)] at hres
  have hlocal := (Local.readRules hB).readTy (S := S)
    (Local.readObject hB hS hSA (max x.length y.length + 1)) t (Ty.ArraysIn.partsIn ht) v
  have hrun := hlocal (r := { data := x, options := options }) rfl (Nat.zero_le _) hx hres htags
  obtain ⟨l', hsame⟩ := hrun.same y hy hagree
  exact ⟨l', (hfuel y (Nat.le_max_right _ _)).symm.trans hsame⟩

/-- A decode that succeeds, leaving the cursor at `p`, succeeds with the same value and
position on every input that agrees on the first `p` bytes. -/
theorem read_local (S : Schema) (hS : S.NoVersionTolerant) (hSA : S.ArraysInt32) (B : Build)
    (t : Ty) (ht : t.ArraysInt32) (v : Val) (x : List UInt8) (options : ReaderOptions)
    (hx : x.length < B.sizeMod) (w : Val)
    (hret : (Reader.read S t v B { data := x, options := options }).out = .ret w)
    (hok : (Reader.read S t v B { data := x, options := options }).st.failed = false)
    (htags : TagsDeclared (Reader.read S t v B { data := x, options := options }).log)
    (y : List UInt8)
    (hy : (Reader.read S t v B { data := x, options := options }).st.pos ≤ y.length)
    (hagree : y.take (Reader.read S t v B { data := x, options := options }).st.pos =
      x.take (Reader.read S t v B { data := x, options := options }).st.pos) :
    (Reader.read S t v B { data := y, options := options }).out = .ret w ∧
    (Reader.read S t v B { data := y, options := options }).st.failed = false ∧
    (Reader.read S t v B { data := y, options := options }).st.pos =
      (Reader.read S t v B { data := x, options := options }).st.pos := by
  rcases hres : Reader.read S t v B { data := x, options := options } with ⟨o, r', l⟩
  simp only [hres] at hret hok htags hy hagree ⊢
  subst hret
  have hnone : r'.error = .none := by simpa [MemoryPackReader.failed] using hok
  cases hB : B.exceptions with
  | true =>
      obtain ⟨l', hsame⟩ := read_local_throwing hS hSA hB ht hx hres htags hy hagree
      exact ⟨by rw [hsame], by rw [hsame]; exact hok, by rw [hsame]⟩
  | false =>
      -- the run without exceptions that did not fail is a run of the other build
      have hq : B.quiet = B := by rw [Build.quiet, ← hB]
      rcases read_builds_cases hS B t v (r := { data := x, options := options }) rfl
        (Nat.zero_le _) with ⟨w', s, l', -, hthrow, hquiet⟩ |
          ⟨c, s, l', w', s', l'', hc, -, hs', -, hquiet⟩
      · rw [hq, hres, Res.mk.injEq] at hquiet
        obtain ⟨hw, rfl, rfl⟩ := hquiet
        obtain rfl := Out.ret.inj hw
        obtain ⟨l', hsame⟩ := read_local_throwing (B := B.throwing) hS hSA rfl ht hx hthrow
          htags hy hagree
        have hsame' := ((Sync.read S t v).ret (B := B) rfl hsame).2
        rw [hq] at hsame'
        exact ⟨by rw [hsame'], by rw [hsame']; exact hok, by rw [hsame']⟩
      · rw [hq, hres, Res.mk.injEq] at hquiet
        exact absurd (hnone.symm.trans (hquiet.2.1 ▸ hs')) (fun h => hc h.symm)

/-- One byte in a vector, with a byte after it and without. -/
theorem read_local_vector :
    (Reader.read nodeSchema (.vector (.scalar (.int false .w1))) (.seq []) ⟨true, .little, .w32, 0⟩
      { data := [1, 0, 0, 0, 7] }).out = .ret (.seq [.scalar 7]) :=
  (read_local nodeSchema nodeSchema_noVersionTolerant
    (fun i t ht n s hm => by
      obtain rfl : t = .pointer .unique (.object 0) := by simpa [nodeSchema] using ht
      simp [Ty.parts] at hm)
    ⟨true, .little, .w32, 0⟩ (.vector (.scalar (.int false .w1)))
    (fun n s hm => by simp [Ty.parts] at hm) (.seq []) [1, 0, 0, 0, 7, 9] {} (by decide)
    (.seq [.scalar 7]) rfl rfl (tagsDeclared_of_all rfl) [1, 0, 0, 0, 7] (Nat.le_refl 5) rfl).1

end MemoryPack
