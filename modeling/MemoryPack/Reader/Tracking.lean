import MemoryPack.Reader.Locality

/-!
# One decode on two inputs

`x` is an input and `y` another one that holds the bytes of `x` from some offset `lo`
on, and perhaps more behind them. A decode that succeeds on `x` is followed step by
step by the same decode on `y`: `Follows R n m` says so of one program, for readers
related by `R`, with at least `n` bytes consumed.

The cursors stay at the same offset (`Aligned`), except that an undeclared union tag
sends each reader to the end of its own input. There nothing more can be read, until
a `VersionTolerant` table moves both back (`Near`).
-/

namespace MemoryPack

open Effect

/-- `y` holds the bytes of `x` from `lo` on, and perhaps more behind them. -/
structure Extends (lo : Nat) (x y : List UInt8) : Prop where
  length_le : x.length ≤ y.length
  same : ∀ i, lo ≤ i → i < x.length → y[i]? = x[i]?

theorem Extends.take {lo p n : Nat} {x y : List UInt8} (h : Extends lo x y) (hlo : lo ≤ p)
    (hn : p + n ≤ x.length) : (y.drop p).take n = (x.drop p).take n := by
  apply List.ext_getElem?
  intro i
  rw [List.getElem?_take, List.getElem?_take]
  by_cases hi : i < n
  · rw [if_pos hi, if_pos hi, List.getElem?_drop, List.getElem?_drop]
    exact h.same _ (by omega) (by omega)
  · rw [if_neg hi, if_neg hi]

/-! ## Related readers -/

/-- The same reader over the other input. -/
structure Aligned (lo : Nat) (x y : List UInt8) (r r' : MemoryPackReader) : Prop where
  eq : r' = { r with data := y }
  data : r.data = x
  lo_le : lo ≤ r.pos
  le_length : r.pos ≤ x.length

/-- Aligned, or each at the end of its input. -/
inductive Near (lo : Nat) (x y : List UInt8) (r r' : MemoryPackReader) : Prop where
  | aligned : Aligned lo x y r r' → Near lo x y r r'
  | ended : r' = { r with data := y, pos := y.length } → r.data = x → lo ≤ x.length →
      r.pos = x.length → Near lo x y r r'

/-- What reading forward asks of a relation between readers. -/
structure Moves (B : Build) (R : MemoryPackReader → MemoryPackReader → Prop) : Prop where
  size_lt : ∀ {r r'}, R r r' → r.size < B.sizeMod
  error : ∀ {r r'}, R r r' → r'.error = r.error
  options : ∀ {r r'}, R r r' → r'.options = r.options
  remaining : ∀ {r r'}, R r r' → r.remaining ≤ r'.remaining
  take : ∀ {r r'} {n : Nat}, R r r' → n ≤ r.remaining → r'.rest.take n = r.rest.take n
  move : ∀ {r r'} {n : Nat}, R r r' → n ≤ r.remaining →
    R { r with pos := r.pos + n } { r' with pos := r'.pos + n }

section Relations

variable {B : Build} {lo : Nat} {x y : List UInt8}

theorem Aligned.moves (hx : x.length < B.sizeMod) (h : Extends lo x y) :
    Moves B (Aligned lo x y) where
  size_lt := fun hr => by rw [MemoryPackReader.size, hr.data]; exact hx
  error := fun hr => by rw [hr.eq]
  options := fun hr => by rw [hr.eq]
  remaining := fun {r r'} hr => by
    have hlen := h.length_le
    rw [hr.eq, MemoryPackReader.remaining, MemoryPackReader.remaining, MemoryPackReader.size,
      MemoryPackReader.size, hr.data]
    exact Nat.sub_le_sub_right hlen _
  take := fun {r r' n} hr hn => by
    have hle := hr.le_length
    rw [MemoryPackReader.remaining, MemoryPackReader.size, hr.data] at hn
    have htake := h.take (n := n) hr.lo_le (by omega)
    rw [hr.eq, MemoryPackReader.rest, MemoryPackReader.rest, hr.data]
    exact htake
  move := fun {r r' n} hr hn => by
    have hle := hr.le_length
    have hlo := hr.lo_le
    rw [MemoryPackReader.remaining, MemoryPackReader.size, hr.data] at hn
    refine ⟨by rw [hr.eq], hr.data, ?_, ?_⟩
    · show lo ≤ r.pos + n
      omega
    · show r.pos + n ≤ x.length
      omega

theorem Near.moves (hx : x.length < B.sizeMod) (h : Extends lo x y) : Moves B (Near lo x y) where
  size_lt := fun hr => by
    cases hr with
    | aligned hr => exact (Aligned.moves hx h).size_lt hr
    | ended _ hdata _ _ => rw [MemoryPackReader.size, hdata]; exact hx
  error := fun hr => by
    cases hr with
    | aligned hr => exact (Aligned.moves hx h).error hr
    | ended heq _ _ _ => rw [heq]
  options := fun hr => by
    cases hr with
    | aligned hr => exact (Aligned.moves hx h).options hr
    | ended heq _ _ _ => rw [heq]
  remaining := fun {r r'} hr => by
    cases hr with
    | aligned hr => exact (Aligned.moves hx h).remaining hr
    | ended _ hdata _ hpos =>
        rw [MemoryPackReader.remaining, MemoryPackReader.size, hdata, hpos, Nat.sub_self]
        exact Nat.zero_le _
  take := fun {r r' n} hr hn => by
    cases hr with
    | aligned hr => exact (Aligned.moves hx h).take hr hn
    | ended _ hdata _ hpos =>
        rw [MemoryPackReader.remaining, MemoryPackReader.size, hdata, hpos, Nat.sub_self] at hn
        rw [Nat.le_zero.mp hn, List.take_zero, List.take_zero]
  move := fun {r r' n} hr hn => by
    cases hr with
    | aligned hr => exact .aligned ((Aligned.moves hx h).move hr hn)
    | ended heq hdata hlo hpos =>
        rw [MemoryPackReader.remaining, MemoryPackReader.size, hdata, hpos, Nat.sub_self] at hn
        obtain rfl := Nat.le_zero.mp hn
        exact .ended heq hdata hlo hpos

theorem Near.data {r r' : MemoryPackReader} (h : Near lo x y r r') : r.data = x := by
  cases h with
  | aligned h => exact h.data
  | ended _ hdata _ _ => exact hdata

theorem Near.le_size {r r' : MemoryPackReader} (h : Near lo x y r r') : r.pos ≤ r.size := by
  cases h with
  | aligned h =>
      rw [MemoryPackReader.size, h.data]
      exact h.le_length
  | ended _ hdata _ hpos =>
      rw [MemoryPackReader.size, hdata]
      exact hpos.le

end Relations

/-! ## Following programs -/

/-- In the exception build: where `m` returns from a reader, it returns the same from
every related one and leaves related readers, at least `n` bytes further on. -/
def Follows (B : Build) (R : MemoryPackReader → MemoryPackReader → Prop) (n : Nat) {α : Type}
    (m : ReadM α) : Prop :=
  ∀ ⦃r r' a r₁ l⦄, R r r' → r.error = .none → m B r = ⟨.ret a, r₁, l⟩ →
    r₁.error = .none ∧ r.pos + n ≤ r₁.pos ∧ ∃ r₁' l', m B r' = ⟨.ret a, r₁', l'⟩ ∧ R r₁ r₁'

namespace Follows

variable {B : Build} {R : MemoryPackReader → MemoryPackReader → Prop} {α β : Type} {n k : Nat}

theorem pure (a : α) : Follows B R 0 (Pure.pure a : ReadM α) := by
  intro r r' b r₁ l hR he hres
  rw [Prog.pure_apply, Res.mk.injEq] at hres
  obtain ⟨ha, rfl, -⟩ := hres
  obtain rfl := Out.ret.inj ha
  exact ⟨he, Nat.le_refl _, r', [], rfl, hR⟩

theorem tell (e : ReadEvent) : Follows B R 0 (Prog.tell e : ReadM Unit) := by
  intro r r' b r₁ l hR he hres
  rw [Prog.tell_apply, Res.mk.injEq] at hres
  obtain ⟨-, rfl, -⟩ := hres
  exact ⟨he, Nat.le_refl _, r', [e], rfl, hR⟩

theorem weaken {m : ReadM α} (h : Follows B R n m) (hk : k ≤ n) : Follows B R k m := by
  intro r r' a r₁ l hR he hres
  obtain ⟨he₁, hpos, hfollow⟩ := h hR he hres
  exact ⟨he₁, by omega, hfollow⟩

theorem bind {m : ReadM α} {f : α → ReadM β} (hm : Follows B R n m)
    (hf : ∀ a, Follows B R k (f a)) : Follows B R (n + k) (m >>= f) := by
  intro r r' b r₂ l hR he hres
  obtain ⟨a, r₁, l₁, l₂, h₁, h₂, rfl⟩ := Prog.bind_eq_ret hres
  obtain ⟨he₁, hpos₁, r₁', l₁', h₁', hR₁⟩ := hm hR he h₁
  obtain ⟨he₂, hpos₂, r₂', l₂', h₂', hR₂⟩ := hf a hR₁ he₁ h₂
  refine ⟨he₂, by omega, r₂', l₁' ++ l₂', ?_, hR₂⟩
  rw [Prog.bind_apply, h₁', Res.bind_ret, h₂', Res.after_mk]

theorem ite {c : Prop} [Decidable c] {m m' : ReadM α} (hm : c → Follows B R n m)
    (hm' : ¬ c → Follows B R n m') : Follows B R n (if c then m else m') :=
  Prog.Closed.ite (P := fun {_} => Follows B R n) hm hm'

/-- The event may depend on the reader. -/
theorem tellThen {e : MemoryPackReader → ReadEvent} {m : ReadM α} (hm : Follows B R n m) :
    Follows B R n (do Prog.tell (e (← Prog.get)); m : ReadM α) := by
  intro r r' a r₁ l hR he hres
  have heq : ∀ s : MemoryPackReader,
      (do Prog.tell (e (← Prog.get)); m : ReadM α) B s = (m B s).after [e s] := fun _ => rfl
  rcases hm' : m B r with ⟨o, s, l'⟩
  rw [heq, hm', Res.after_mk, Res.mk.injEq] at hres
  obtain ⟨rfl, rfl, -⟩ := hres
  obtain ⟨he₁, hpos, r₁', l₁', hrun, hR₁⟩ := hm hR he hm'
  exact ⟨he₁, hpos, r₁', _, by rw [heq, hrun, Res.after_mk], hR₁⟩

theorem of_exact (hR : Moves B R) {m : ReadM α} {c : ReaderOptions → Prop}
    {g : List UInt8 → α} (h : Exact B n c g m) : Follows B R n m := by
  intro r r' a r₁ l hr he hres
  obtain ⟨hc, hn⟩ := h.inv he (hR.size_lt hr) hres
  obtain ⟨l₁, hok⟩ := h.ok he hc hn
  rw [hok, Res.mk.injEq] at hres
  obtain ⟨ha, rfl, -⟩ := hres
  obtain rfl := Out.ret.inj ha
  obtain ⟨l₂, hok'⟩ := h.ok (r := r') (hR.error hr ▸ he) (hR.options hr ▸ hc)
    (Nat.le_trans hn (hR.remaining hr))
  rw [hR.take hr hn] at hok'
  exact ⟨he, Nat.le_refl _, _, l₂, hok', hR.move hr hn⟩

theorem failWith (hB : B.exceptions = true) {code : MemoryPackError} (n : Nat) (a : α) :
    Follows B R n (do Reader.fail code; return a : ReadM α) := by
  intro r r' b r₁ l _ _ hres
  simp [Reader.fail_throws hB] at hres

theorem failed (hR : Moves B R) : Follows B R 0 Reader.failed := by
  intro r r' b r₁ l hr he hres
  have hrun : ∀ s : MemoryPackReader, Reader.failed B s = ⟨.ret s.failed, s, []⟩ := fun _ => rfl
  rw [hrun, Res.mk.injEq] at hres
  obtain ⟨hb, rfl, -⟩ := hres
  obtain rfl := Out.ret.inj hb
  refine ⟨he, Nat.le_refl _, r', [], ?_, hr⟩
  rw [hrun, MemoryPackReader.failed, MemoryPackReader.failed, hR.error hr]

theorem host (f : Build → α) : Follows B R 0 (Prog.ask >>= fun B => Pure.pure (f B) : ReadM α) :=
  fun _ _ _ _ _ hr he hres => pure (B := B) (f B) hr he hres

theorem sizeProduct (a b : Nat) : Follows B R 0 (Reader.sizeProduct a b) :=
  bind (n := 0) (k := 0) (tell _) fun _ => host _

/-! ## Lengths and strings -/

theorem readString (hB : B.exceptions = true) (hR : Moves B R) :
    Follows B R 4 Reader.readString := by
  refine bind (k := 0) (of_exact hR (.readRaw hB 4)) fun n =>
    bind (n := 0) (k := 0) (failed hR) fun b => ?_
  refine ite (fun _ => pure _) fun _ => ite (fun _ => pure _) fun _ => ?_
  refine ite (fun _ => pure _) fun _ => ite (fun _ => ?_) fun _ => ?_
  · exact bind (k := 0) (weaken (of_exact hR (.readUtf16String hB _)) (Nat.zero_le _))
      fun _ => pure _
  · exact bind (n := 0) (k := 0) (weaken (of_exact hR (.readRaw hB 4)) (Nat.zero_le _)) fun _ =>
      weaken (of_exact hR (.utf8Payload hB _)) (Nat.zero_le _)

/-- A length that passed the checks on one input passes them on the other, which has no
fewer bytes left. -/
theorem lengthThen (hB : B.exceptions = true) (hR : Moves B R) {min : Nat} {f : Int → ReadM α}
    (hzero : ∀ len ≤ 0, Follows B R 0 (f len))
    (hpos : ∀ len, 0 < len → (0 < min → len.toNat * min < B.sizeMod) → Follows B R 0 (f len)) :
    Follows B R 4 (Reader.readCollectionLength min >>= f) := by
  intro r r' a r₂ l hr he hres
  obtain ⟨len, r₁, l₁, l₂, hlen, hf, rfl⟩ := Prog.bind_eq_ret hres
  have he₁ := (Sync.basicRules.readCollectionLength min).error_none hB he hlen
  rcases Reader.readCollectionLength_returns hlen with ⟨-, h4, rfl, hhead, hok⟩ | ⟨-, hne⟩
  · have hr₁ := hR.move hr h4
    have hf' : Follows B R 0 (f len) := by
      by_cases hle : len ≤ 0
      · exact hzero len hle
      · refine hpos len (by omega) fun hmin => ?_
        have hok' : Reader.LengthOk min len { r with pos := r.pos + 4 } :=
          hok.resolve_left fun h => hle (h ▸ by decide)
        have hmul := Nat.mul_le_of_le_div _ _ _ (hok'.present hmin)
        have hsize := hR.size_lt hr
        have hrem : ({ r with pos := r.pos + 4 } : MemoryPackReader).remaining ≤ r.size :=
          Nat.sub_le _ _
        omega
    obtain ⟨he₂, hpos₂, r₂', l₂', hrun, hr₂⟩ := hf' hr₁ he hf
    have hok' : len = nullCollection ∨
        Reader.LengthOk min len { r' with pos := r'.pos + 4 } := by
      refine hok.imp_right fun hok => ⟨hok.nonneg, ?_, fun hmin => ?_⟩
      · have hoptions : r'.options = r.options := hR.options hr
        show len.toNat ≤ r'.options.maxCollectionLength.toNat
        rw [hoptions]
        exact hok.limit
      · exact Nat.le_trans (hok.present hmin) (Nat.div_le_div_right (hR.remaining hr₁))
    have hhead' : len = asInt32 (LittleEndian.leNat (r'.rest.take 4)) := by
      rw [hhead, hR.take hr h4]
    obtain ⟨l₁', hlen'⟩ := Reader.readCollectionLength_ok (B := B) (hR.error hr ▸ he)
      (Nat.le_trans h4 (hR.remaining hr)) hhead' hok'
    refine ⟨he₂, hpos₂, r₂', l₁' ++ l₂', ?_, hr₂⟩
    rw [Prog.bind_apply, hlen', Res.bind_ret, hrun, Res.after_mk]
  · exact absurd he₁ hne

theorem forWhile (hR : Moves B R) {body : α → ReadM α} (hb : ∀ a, Follows B R 0 (body a)) :
    ∀ (count : Nat) (a : α),
      Follows B R 0 (Prog.forWhile MemoryPackReader.failed body count a)
  | 0, a => pure a
  | count + 1, a => by
      have hrest := bind (hb a) fun a' => forWhile hR hb count a'
      have heq : ∀ s : MemoryPackReader, s.error = .none →
          Prog.forWhile MemoryPackReader.failed body (count + 1) a B s =
            (body a >>= fun a' => Prog.forWhile MemoryPackReader.failed body count a') B s := by
        intro s hs
        exact Prog.forWhile_succ (by simp [MemoryPackReader.failed, hs])
      intro r r' a' r₁ l hr he hres
      rw [heq r he] at hres
      obtain ⟨he₁, hpos, r₁', l', hrun, hr₁⟩ := hrest hr he hres
      exact ⟨he₁, hpos, r₁', l', (heq r' (hR.error hr ▸ he)).trans hrun, hr₁⟩

theorem elements (hB : B.exceptions = true) (hR : Moves B R) {min : Nat} {reserve counted : Bool}
    {element : ReadM β} {store : α → β → α} {a : α} (he : Follows B R 0 element) :
    Follows B R 4 (Reader.readElements min reserve counted element store a) := by
  have hbody : ∀ a, Follows B R 0 (do
      let v ← element
      if counted then Prog.tell (.elements 1)
      return store a v : ReadM α) := fun a =>
    bind (k := 0) he fun v => ite
      (fun _ => bind (n := 0) (k := 0) (tell _) fun _ => pure _) fun _ => pure _
  have hloop := fun count => forWhile hR hbody count a
  refine lengthThen hB hR (fun len hlen => ?_) fun len hlen _ => ?_
  · rw [if_pos hlen]
    exact pure a
  · rw [if_neg (Int.not_le.mpr hlen)]
    exact ite (fun _ => tellThen (e := fun s => .alloc len.toNat min s.remaining) (hloop _))
      fun _ => hloop _

/-! ## Contiguous payloads -/

theorem readVector (hB : B.exceptions = true) (hR : Moves B R) {w : Nat} (hw : 0 < w) :
    Follows B R 4 (Reader.readVector w) := by
  refine lengthThen hB hR (fun len hlen => ?_) fun len hlen hlt => ?_
  · rw [if_pos hlen]
    exact pure _
  · rw [if_neg (Int.not_le.mpr hlen)]
    exact weaken (of_exact hR (.vectorPayload hB (hlt hw))) (Nat.zero_le _)

theorem readVectorBool (hB : B.exceptions = true) (hR : Moves B R) :
    Follows B R 4 Reader.readVectorBool := by
  refine lengthThen hB hR (fun len hlen => ?_) fun len hlen _ => ?_
  · rw [if_pos hlen]
    exact pure _
  · rw [if_neg (Int.not_le.mpr hlen)]
    exact weaken (of_exact hR (.vectorBoolPayload hB)) (Nat.zero_le _)

theorem skipElements (hB : B.exceptions = true) (hR : Moves B R) (w : Nat) (skip : Int) :
    Follows B R 0 (Reader.skipElements w skip) := by
  refine ite (fun _ => ?_) fun _ => pure _
  exact bind (n := 0) (k := 0) (sizeProduct _ w) fun bytes =>
    weaken (of_exact hR (.advance hB bytes)) (Nat.zero_le _)

/-- The elements `ReadArray` stores. -/
theorem storedElements (hB : B.exceptions = true) (hR : Moves B R) {w count : Nat}
    (hlt : count * w < B.sizeMod) {f : List Nat → ReadM (List Nat)}
    (hf : ∀ ns, Follows B R 0 (f ns)) : Follows B R 0 (do
      if !(← Reader.ensureBytes (← Reader.sizeProduct count w)) then return []
      let stored ← Reader.readContiguous w count
      f stored : ReadM (List Nat)) := by
  intro r r' a r₂ l hr he hres
  by_cases hn : count * w ≤ r.remaining
  · have heq : ∀ s : MemoryPackReader, s.error = .none → count * w ≤ s.remaining → ∃ l₀, (do
        if !(← Reader.ensureBytes (← Reader.sizeProduct count w)) then return []
        let stored ← Reader.readContiguous w count
        f stored : ReadM (List Nat)) B s =
          (f (Reader.splitWords w count (s.rest.take (count * w))) B
            { s with pos := s.pos + count * w }).after l₀ := by
      intro s hs hns
      obtain ⟨l', hread⟩ := Reader.readContiguous_ok (B := B) w count hs hns hlt
      exact ⟨_, by
        simp only [Prog.bind_apply, Reader.sizeProduct_apply, Res.bind_ret, Nat.mod_eq_of_lt hlt,
          Reader.ensureBytes_ok hs hns, Bool.not_true, Bool.false_eq_true, if_false, hread,
          Res.after_after, Reader.splitWords_take]
        rfl⟩
    obtain ⟨l₀, hrun⟩ := heq r he hn
    obtain ⟨l₀', hrun'⟩ := heq r' (hR.error hr ▸ he) (Nat.le_trans hn (hR.remaining hr))
    rcases hm : f (Reader.splitWords w count (r.rest.take (count * w))) B
      { r with pos := r.pos + count * w } with ⟨o, s, l'⟩
    rw [hrun, hm, Res.after_mk, Res.mk.injEq] at hres
    obtain ⟨rfl, rfl, -⟩ := hres
    obtain ⟨he₂, hpos, r₂', l₂', hfollow, hr₂⟩ := hf _ (hR.move hr hn) he hm
    refine ⟨he₂, ?_, r₂', l₀' ++ l₂', ?_, hr₂⟩
    · have hle : r.pos + count * w + 0 ≤ s.pos := hpos
      omega
    · rw [hrun', hR.take hr hn, hfollow, Res.after_mk]
  · simp [Reader.sizeProduct_apply, Nat.mod_eq_of_lt hlt,
      Reader.ensureBytes_short he (Nat.not_le.mp hn), Reader.fail_throws hB] at hres

theorem readArray (hB : B.exceptions = true) (hR : Moves B R) {w : Nat} (hw : 0 < w)
    (maxCount : Int) : Follows B R 4 (Reader.readArray w maxCount) := by
  rw [Reader.readArray_eq]
  refine lengthThen hB hR (fun len hlen => ?_) fun len hlen hlt => ?_
  · rw [if_pos hlen]
    exact pure _
  · rw [if_neg (Int.not_le.mpr hlen), Reader.arrayPayload]
    have hskip := skipElements hB hR w
      (asInt32 (len - if len ≤ maxCount then len else maxCount))
    refine ite (fun _ => ?_) fun _ => bind (n := 0) (k := 0) hskip fun _ => pure _
    refine storedElements hB hR ?_ fun ns => bind (n := 0) (k := 0) hskip fun _ => pure _
    refine Nat.lt_of_le_of_lt (Nat.mul_le_mul_right w ?_) (hlt hw)
    split <;> omega

/-! ## Nulls -/

theorem readNullableOf (hB : B.exceptions = true) (hR : Moves B R) {t : Ty}
    (ht : wireNullEncoding t = .nullableValue) : Follows B R 1 (Reader.readNullableOf t) := by
  have nullable : ∀ {align size : Nat}, 0 < align →
      Follows B R 1 (Reader.readNullable align size) := by
    intro align size ha
    refine weaken (bind (k := 0) (of_exact hR (.takeBytes hB _)) fun o => ?_)
      (Exact.nullableSize_pos ha)
    cases o with
    | none => exact pure _
    | some src => exact ite (fun _ => pure _) fun _ => pure _
  cases t with
  | scalar s =>
      refine bind (k := 0) (nullable s.size_pos) fun o => ?_
      cases o with
      | none => exact pure _
      | some bs => exact host _
  | unmanaged u =>
      refine bind (k := 0) (nullable u.align_pos) fun o => ?_
      cases o <;> exact pure _
  | _ => simp [wireNullEncoding] at ht

end Follows

/-! ## Near readers -/

section NearRules

variable {B : Build} {lo : Nat} {x y : List UInt8} {α : Type} {n k : Nat}

/-- A look at the next `k` bytes that decides how to go on, when either way at least `k`
bytes are consumed. -/
theorem Follows.peekThen (hx : x.length < B.sizeMod) (h : Extends lo x y) {peek : ReadM Bool}
    {f : Bool → ReadM α} {g : List UInt8 → Bool}
    (hok : ∀ r, r.error = .none → k ≤ r.remaining → ∃ l, peek B r = ⟨.ret (g (r.rest.take k)), r, l⟩)
    (hshort : ∀ r, ¬ k ≤ r.remaining → peek B r = ⟨.ret false, r, []⟩)
    (hf : ∀ b, Follows B (Near lo x y) k (f b)) : Follows B (Near lo x y) k (peek >>= f) := by
  have hR := Near.moves hx h
  intro r r' a r₂ l hr he hres
  obtain ⟨b, r₁, l₁, l₂, hpeek, hrest, rfl⟩ := Prog.bind_eq_ret hres
  obtain rfl : r₁ = r := by
    by_cases hk : k ≤ r.remaining
    · obtain ⟨l', hrun⟩ := hok r he hk
      rw [hrun, Res.mk.injEq] at hpeek
      exact hpeek.2.1.symm
    · rw [hshort r hk, Res.mk.injEq] at hpeek
      exact hpeek.2.1.symm
  obtain ⟨he₂, hpos, r₂', l₂', hrun, hr₂⟩ := hf b hr he hrest
  have hk : k ≤ r₁.remaining := by
    have hend := hr₂.le_size
    have hsize : r₂.size = r₁.size := by
      rw [MemoryPackReader.size, MemoryPackReader.size, hr₂.data, hr.data]
    exact Nat.le_sub_of_add_le (by omega)
  obtain ⟨l', hpeek₁⟩ := hok r₁ he hk
  rw [hpeek₁, Res.mk.injEq] at hpeek
  obtain rfl := Out.ret.inj hpeek.1
  obtain ⟨l₁', hpeek'⟩ := hok r' (hR.error hr ▸ he) (Nat.le_trans hk (hR.remaining hr))
  rw [hR.take hr hk] at hpeek'
  refine ⟨he₂, hpos, r₂', l₁' ++ l₂', ?_, hr₂⟩
  rw [Prog.bind_apply, hpeek', Res.bind_ret, hrun, Res.after_mk]

namespace Follows

theorem readByte (hB : B.exceptions = true) {R : MemoryPackReader → MemoryPackReader → Prop}
    (hR : Moves B R) : Follows B R 1 Reader.readByte := by
  refine bind (k := 0) (of_exact hR (.takeBytes hB 1)) fun o => ?_
  cases o <;> exact pure _

theorem nullObject (hB : B.exceptions = true) (hx : x.length < B.sizeMod) (h : Extends lo x y)
    {payload : ReadM Val} (hp : Follows B (Near lo x y) 1 payload) :
    Follows B (Near lo x y) 1 (Reader.nullObjectDeserialize payload) := by
  refine peekThen hx h (g := fun bs => bs.headD 0 = MemoryPack.nullObject)
    (fun r _ h1 => ⟨[.access r.pos 1], ?_⟩) (fun r h0 => Reader.peekIsNull_end h0) fun b => ?_
  · have hhead : (r.rest.take 1).headD 0 = r.rest.headD 0 := by cases r.rest <;> rfl
    rw [hhead]
    exact Reader.peekIsNull_ok h1
  · exact ite (fun _ => bind (k := 0) (readByte hB (Near.moves hx h)) fun _ => pure _)
      fun _ => bind (k := 0) hp fun _ => pure _

theorem nullCollection (hB : B.exceptions = true) (hx : x.length < B.sizeMod)
    (h : Extends lo x y) {payload : ReadM Val} (hp : Follows B (Near lo x y) 4 payload) :
    Follows B (Near lo x y) 4 (Reader.nullCollectionDeserialize payload) := by
  rw [Reader.nullCollectionDeserialize_eq]
  refine peekThen hx h
    (g := fun bs => asInt32 (LittleEndian.leNat bs) = MemoryPack.nullCollection)
    (fun r he h4 => ⟨_, Reader.nullCollectionTest_ok he h4⟩)
    (fun r h4 => Reader.nullCollectionTest_short h4) fun b => ?_
  exact ite (fun _ => bind (k := 0) (of_exact (Near.moves hx h) (.advance hB 4)) fun _ => pure _)
    fun _ => bind (k := 0) hp fun _ => pure _

/-- Each reader is sent to the end of its own input. -/
theorem undeclaredUnion (h : Extends lo x y) (hlo : lo ≤ x.length) (tag : UInt16) (v : Val) :
    Follows B (Near lo x y) 0 (Reader.undeclaredUnion tag v) := by
  intro r r' a r₁ l hr he hres
  have hrun : ∀ s : MemoryPackReader, s.error = .none → ∃ l', Reader.undeclaredUnion tag v B s =
      ⟨.ret v, { s with pos := s.pos + s.remaining }, l'⟩ := by
    intro s hs
    exact ⟨_, by
      simp only [Reader.undeclaredUnion, Prog.bind_apply, Prog.tell_apply, Res.bind_ret,
        Prog.get_apply, Reader.advance_ok (B := B) hs (Nat.le_refl _), Prog.pure_apply,
        Res.after_mk]
      rfl⟩
  obtain ⟨l', hr₁⟩ := hrun r he
  have he' : r'.error = .none := by
    cases hr with
    | aligned hr => rw [hr.eq]; exact he
    | ended heq _ _ _ => rw [heq]; exact he
  obtain ⟨l'', hr₁'⟩ := hrun r' he'
  rw [hr₁, Res.mk.injEq] at hres
  obtain ⟨ha, rfl, -⟩ := hres
  obtain rfl := Out.ret.inj ha
  have hend : ∀ s : MemoryPackReader, s.pos ≤ s.size → s.pos + s.remaining = s.size := by
    intro s hs
    show s.pos + (s.size - s.pos) = s.size
    omega
  have hle' : r'.pos ≤ r'.size ∧ r'.size = y.length := by
    have hlen := h.length_le
    cases hr with
    | aligned hr =>
        have hle := hr.le_length
        rw [hr.eq]
        exact ⟨Nat.le_trans hle hlen, rfl⟩
    | ended heq _ _ _ => rw [heq]; exact ⟨Nat.le_refl _, rfl⟩
  refine ⟨he, Nat.le_add_right _ _, _, l'', hr₁', ?_⟩
  rw [hend r hr.le_size, hend r' hle'.1, hle'.2]
  refine .ended ?_ hr.data hlo (by rw [MemoryPackReader.size, hr.data])
  cases hr with
  | aligned hr => rw [hr.eq]
  | ended heq _ _ _ => rw [heq]

/-! ## The formatters -/

theorem readRules (hB : B.exceptions = true) (hx : x.length < B.sizeMod) (h : Extends lo x y)
    (hlo : lo ≤ x.length) :
    ReadRules (fun {α} n => Follows B (Near lo x y) n (α := α)) (fun _ => True) where
  pure := pure
  bind := bind
  weaken := weaken
  takeBytes := fun n => of_exact (Near.moves hx h) (.takeBytes hB n)
  readRaw := fun w => of_exact (Near.moves hx h) (.readRaw hB w)
  failWith := fun n a _ => failWith hB n a
  advance := fun n => weaken (of_exact (Near.moves hx h) (.advance hB n)) (Nat.zero_le n)
  readString := readString hB (Near.moves hx h)
  readVector := readVector hB (Near.moves hx h)
  readVectorBool := readVectorBool hB (Near.moves hx h)
  readArray := fun {_ s} _ => readArray hB (Near.moves hx h) s.size_pos _
  readNullableOf := fun _ => readNullableOf hB (Near.moves hx h)
  elements := fun _ he => elements hB (Near.moves hx h) (weaken he (Nat.zero_le _))
  nullCollection := nullCollection hB hx h
  nullObject := nullObject hB hx h
  undeclaredUnion := undeclaredUnion h hlo

end Follows

/-! ## User types -/

section States

variable {r r' : MemoryPackReader}

theorem Near.depth_eq (h : Near lo x y r r') : r'.depth = r.depth := by
  cases h with
  | aligned h => rw [h.eq]
  | ended heq _ _ _ => rw [heq]

theorem Near.setDepth (h : Near lo x y r r') (d : UInt32) :
    Near lo x y { r with depth := d } { r' with depth := d } := by
  cases h with
  | aligned h => exact .aligned ⟨by rw [h.eq], h.data, h.lo_le, h.le_length⟩
  | ended heq hdata hlo hpos => exact .ended (by rw [heq]) hdata hlo hpos

theorem Near.entered (h : Near lo x y r r') : Near lo x y r.entered r'.entered := by
  have hr' : r'.entered = { r' with depth := r.depth + 1 } := by
    rw [MemoryPackReader.entered, h.depth_eq]
  rw [hr']
  exact h.setDepth _

theorem Near.left (h : Near lo x y r r') : Near lo x y r.left r'.left := by
  unfold MemoryPackReader.left
  rw [h.depth_eq]
  split
  · exact h.setDepth _
  · exact h

end States

namespace Follows

theorem objectBody (hB : B.exceptions = true) (hx : x.length < B.sizeMod) (h : Extends lo x y)
    {v : Val} {members : ReadM (List Val)} (hm : Follows B (Near lo x y) n members) :
    Follows B (Near lo x y) n (Reader.objectBody v members) := by
  intro r r' a r₂ l hr he hres
  by_cases hdeep : r.depth + 1 > r.options.maxDepth
  · simp [Reader.objectBody_deep hdeep, Reader.fail_throws hB] at hres
  · have hdeep' : ¬ r'.depth + 1 > r'.options.maxDepth := by
      rw [hr.depth_eq, (Near.moves hx h).options hr]
      exact hdeep
    rw [Reader.objectBody_open hdeep] at hres
    rcases hmem : members B r.entered with ⟨vs | e | _, s, l'⟩ <;> rw [hmem] at hres
    · simp only [Res.bind_ret, Res.after_mk, Res.mk.injEq, Out.ret.injEq] at hres
      obtain ⟨rfl, rfl, -⟩ := hres
      obtain ⟨he₁, hpos, s', l'', hmem', hs⟩ := hm hr.entered he hmem
      have hleft : s.left.error = s.error ∧ s.left.pos = s.pos := by
        unfold MemoryPackReader.left
        split <;> exact ⟨rfl, rfl⟩
      refine ⟨hleft.1.trans he₁, by rw [hleft.2]; exact hpos, ?_⟩
      exact ⟨s'.left, _, by
        rw [Reader.objectBody_open hdeep', hmem', Res.bind_ret, Res.after_mk, Res.after_mk],
        hs.left⟩
    · simp at hres
    · simp at hres

theorem readMembers {R : MemoryPackReader → MemoryPackReader → Prop} {S : Schema}
    {read : Ty → Val → ReadM Val} (count : Nat) :
    ∀ (ts : List Ty) (index : Nat) (vs : List Val), (∀ t ∈ ts, ∀ v, Follows B R 0 (read t v)) →
      Follows B R 0 (Reader.readMembers S read count index ts vs)
  | [], _, _, _ => pure _
  | t :: ts, index, vs, h => by
      have hrest := fun v => bind (n := 0) (k := 0) (readMembers (S := S) count ts
        (index + 1) vs.tail fun u hu => h u (List.mem_cons_of_mem t hu))
        fun vs' => pure (v :: vs')
      exact ite (fun _ => bind (n := 0) (k := 0) (h t List.mem_cons_self _) hrest)
        fun _ => bind (n := 0) (k := 0) (tell _) fun _ => bind (n := 0) (k := 0) (pure _) hrest

end Follows

/-! ## Version-tolerant objects -/

namespace Follows

theorem readVarIntLength (hB : B.exceptions = true)
    {R : MemoryPackReader → MemoryPackReader → Prop} (hR : Moves B R) :
    Follows B R 1 Reader.readVarIntLength := by
  have raw : ∀ w, Follows B R 0 (Reader.readRaw w) := fun w =>
    weaken (of_exact hR (.readRaw hB w)) (Nat.zero_le w)
  refine bind (k := 0) (readByte hB hR) fun b => ite (fun _ => pure _) fun _ => ?_
  refine ite (fun _ => raw 2) fun _ => ite (fun _ => raw 4) fun _ => failWith hB 0 _

theorem readObjectHeader (hB : B.exceptions = true)
    {R : MemoryPackReader → MemoryPackReader → Prop} (hR : Moves B R) :
    Follows B R 1 Reader.readObjectHeader :=
  bind (k := 0) (readByte hB hR) fun _ => ite (fun _ => pure _) fun _ =>
    ite (fun _ => failWith hB 0 _) fun _ => pure _

/-- The constructor of the table, on aligned readers. -/
theorem construct (hB : B.exceptions = true) (hx : x.length < B.sizeMod) (h : Extends lo x y) :
    Follows B (Aligned lo x y) 1 VersionTolerantReader.construct := by
  have hR := Aligned.moves hx h
  refine bind (k := 0) (readObjectHeader hB hR) fun header => ite (fun _ => pure _) fun _ => ?_
  refine bind (n := 0) (k := 0) (forWhile hR (fun ls => ?_) _ _) fun lengths => ?_
  · exact weaken (bind (k := 0) (readVarIntLength hB hR) fun len => pure (ls ++ [len]))
      (Nat.zero_le _)
  · intro r r' vt r₁ l hr he hres
    have hrun : ∀ s : MemoryPackReader, (do
        return ⟨lengths, header.count.toNat, 0, (← Prog.get).pos, false⟩ :
          ReadM VersionTolerantReader) B s =
        ⟨.ret ⟨lengths, header.count.toNat, 0, s.pos, false⟩, s, []⟩ := fun _ => rfl
    have hpos : r'.pos = r.pos := by rw [hr.eq]
    obtain ⟨hvt, rfl, -⟩ := (Res.mk.injEq ..).mp ((hrun r).symm.trans hres)
    obtain rfl := Out.ret.inj hvt
    exact ⟨he, Nat.le_refl _, r', [], by rw [← hpos]; exact hrun r', hr⟩

/-- A seek to the same offset aligns the readers again. -/
theorem seek (hB : B.exceptions = true) (h : Extends lo x y) {r r' r₁ : MemoryPackReader}
    {pos : Nat} (hr : Near lo x y r r') (hlo : lo ≤ pos)
    (hres : Prog.Returns (Reader.seek pos) B r () r₁) :
    pos ≤ x.length ∧ r₁ = { r with pos := pos } ∧ ∃ r₁',
      Prog.Returns (Reader.seek pos) B r' () r₁' ∧ Aligned lo x y r₁ r₁' := by
  obtain ⟨l, hres⟩ := Prog.returns_iff.mp hres
  have hlen := h.length_le
  have hsize : r.size = x.length := by rw [MemoryPackReader.size, hr.data]
  by_cases hle : pos ≤ r.size
  · rw [Reader.seek_within hle, Res.mk.injEq] at hres
    obtain ⟨-, rfl, -⟩ := hres
    have hle' : pos ≤ r'.size := by
      cases hr with
      | aligned hr => rw [hr.eq]; exact Nat.le_trans (hsize ▸ hle) hlen
      | ended heq _ _ _ => rw [heq]; exact Nat.le_trans (hsize ▸ hle) hlen
    refine ⟨hsize ▸ hle, rfl, _, Prog.returns_iff.mpr ⟨_, Reader.seek_within hle'⟩, ?_, hr.data,
      hlo, hsize ▸ hle⟩
    cases hr with
    | aligned hr => rw [hr.eq]
    | ended heq _ _ _ => rw [heq]
  · rw [Reader.seek_past (Nat.not_le.mp hle), Reader.fail_throws hB] at hres
    simp at hres

theorem returns {R : MemoryPackReader → MemoryPackReader → Prop} {m : ReadM α}
    (h : Follows B R n m) {r r' r₁ : MemoryPackReader} {a : α} (hr : R r r') (he : r.error = .none)
    (hres : Prog.Returns m B r a r₁) : r₁.error = .none ∧ r.pos + n ≤ r₁.pos ∧
      ∃ r₁', Prog.Returns m B r' a r₁' ∧ R r₁ r₁' := by
  obtain ⟨l, hres⟩ := Prog.returns_iff.mp hres
  obtain ⟨he₁, hpos, r₁', l', hrun, hr₁⟩ := h hr he hres
  exact ⟨he₁, hpos, r₁', Prog.returns_iff.mpr ⟨l', hrun⟩, hr₁⟩

end Follows

end NearRules

end MemoryPack
