import MemoryPack.Reader.Operations

/-!
# Statements behind a check

Most of what the reader does stands behind a check it has just made: bytes are copied
behind `EnsureBytes`, a loop runs behind `ReadCollectionLength`, a string is decoded
behind `CheckStringLength`. A property of runs is carried through these by knowing,
of the state each part starts in, what the checks before it have established.

`From Q pre m` says that `Q` holds of the runs of `m` that start where `pre` holds.
The rules hold for any property of runs that composes along a sequence.
-/

namespace MemoryPack

open Effect

/-- A property of a run of the reader that started in the given state. -/
abbrev RunProp :=
  ∀ {α : Type}, Build → MemoryPackReader → Res MemoryPackReader MemoryPackError ReadEvent α → Prop

/-- `Q` holds of every run of `m` from a state that satisfies `pre`. -/
def From (Q : RunProp) (pre : MemoryPackReader → Prop) {α : Type} (m : ReadM α) : Prop :=
  ∀ B r, pre r → Q B r (m B r)

/-- `Q` holds of every run of `m`. -/
def Always (Q : RunProp) {α : Type} (m : ReadM α) : Prop := ∀ B r, Q B r (m B r)

theorem Always.from {Q : RunProp} {α : Type} {m : ReadM α} (h : Always @Q m)
    (pre : MemoryPackReader → Prop) : From @Q pre m :=
  fun B r _ => h B r

theorem From.weaken {Q : RunProp} {α : Type} {m : ReadM α} {pre pre' : MemoryPackReader → Prop}
    (h : From @Q pre m) (hpre : ∀ r, pre' r → pre r) : From @Q pre' m :=
  fun B r hr => h B r (hpre r hr)

/-- A run with `Q₀` that goes on to a run with `Q₁` is a run with `Q`. -/
structure Composes (Q₀ Q₁ Q : RunProp) : Prop where
  bind : ∀ {α β : Type} {m : ReadM α} {f : α → ReadM β} {B : Build} {r : MemoryPackReader},
    Q₀ B r (m B r) → (∀ a r' l, m B r = ⟨.ret a, r', l⟩ → Q₁ B r' (f a B r')) →
      Q B r ((m >>= f) B r)

namespace Composes

variable {Q₀ Q₁ Q : RunProp} {pre : MemoryPackReader → Prop} {α : Type}

theorem tell (h : Composes @Q₀ @Q₁ @Q) {e : ReadEvent} {f : Unit → ReadM α}
    (he : From @Q₀ pre (Prog.tell e)) (hf : From @Q₁ pre (f ())) :
    From @Q pre (Prog.tell e >>= f) := by
  intro B r hr
  apply h.bind (he B r hr)
  intro _ r' l hres
  obtain ⟨-, rfl, -⟩ := (Res.mk.injEq ..).mp hres
  exact hf B r hr

theorem get (h : Composes @Q₀ @Q₁ @Q) {f : MemoryPackReader → ReadM α}
    (hget : Always @Q₀ (Prog.get : ReadM MemoryPackReader))
    (hf : ∀ s, From @Q₁ (fun r => pre r ∧ s = r) (f s)) : From @Q pre (Prog.get >>= f) := by
  intro B r hr
  apply h.bind (hget B r)
  intro s r' l hres
  obtain ⟨hs, rfl, -⟩ := (Res.mk.injEq ..).mp hres
  exact hf s B r ⟨hr, (Out.ret.inj hs).symm⟩

theorem sizeProduct (h : Composes @Q₀ @Q₁ @Q) {a b : Nat} {f : Nat → ReadM α}
    (hprod : Always @Q₀ (Reader.sizeProduct a b)) (hf : ∀ n, From @Q₁ pre (f n)) :
    From @Q pre (Reader.sizeProduct a b >>= f) := by
  intro B r hr
  apply h.bind (hprod B r)
  intro n r' l hres
  rw [Reader.sizeProduct_apply, Res.mk.injEq] at hres
  obtain ⟨-, rfl, -⟩ := hres
  exact hf n B r hr

theorem ensureBytes (h : Composes @Q₀ @Q₁ @Q) {n : Nat} {f : Bool → ReadM α}
    (hens : Always @Q₀ (Reader.ensureBytes n))
    (ht : From @Q₁ (fun r => pre r ∧ r.error = .none ∧ n ≤ r.remaining) (f true))
    (hf : Always @Q₁ (f false)) : From @Q pre (Reader.ensureBytes n >>= f) := by
  intro B r hr
  apply h.bind (hens B r)
  intro ok r' l hres
  rcases Reader.ensureBytes_returns hres with ⟨rfl, he, hn, rfl⟩ | ⟨rfl, -⟩
  · exact ht B r' ⟨hr, he, hn⟩
  · exact hf B r'

theorem checkStringLength (h : Composes @Q₀ @Q₁ @Q) {n unitSize : Nat} {f : Bool → ReadM α}
    (hcheck : Always @Q₀ (Reader.checkStringLength n unitSize))
    (ht : From @Q₁ (Reader.StringOk n unitSize) (f true)) (hf : Always @Q₁ (f false)) :
    Always @Q (Reader.checkStringLength n unitSize >>= f) := by
  intro B r
  apply h.bind (hcheck B r)
  intro ok r' l hres
  rcases Reader.checkStringLength_returns hres with ⟨rfl, rfl, hok⟩ | ⟨rfl, -⟩
  · exact ht B r' hok
  · exact hf B r'

theorem failed (h : Composes @Q₀ @Q₁ @Q) {f : Bool → ReadM α} (hfailed : Always @Q₀ Reader.failed)
    (ht : From @Q₁ (fun r => r.error ≠ .none) (f true))
    (hf : From @Q₁ (fun r => r.error = .none) (f false)) : Always @Q (Reader.failed >>= f) := by
  intro B r
  apply h.bind (hfailed B r)
  intro b r' l hres
  obtain ⟨hb, rfl, -⟩ := (Res.mk.injEq ..).mp hres
  obtain rfl := Out.ret.inj hb
  by_cases he : r.error = .none
  · have hb : r.failed = false := by simp [MemoryPackReader.failed, he]
    rw [hb]
    exact hf B r he
  · have hb : r.failed = true := by simp [MemoryPackReader.failed, he]
    rw [hb]
    exact ht B r he

/-- A collection length, and what follows where it was accepted and is positive. -/
theorem readCollectionLength (h : Composes @Q₀ @Q₁ @Q) {min : Nat} {m : ReadM α} {f : Int → ReadM α}
    (hlen : Always @Q₀ (Reader.readCollectionLength min))
    (ht : ∀ len, 0 < len → len < 2 ^ 31 →
      From @Q₁ (fun r => r.error = .none ∧ Reader.LengthOk min len r) (f len))
    (hf : Always @Q₁ m) :
    Always @Q (do
      let len ← Reader.readCollectionLength min
      if len ≤ 0 then m else f len) := by
  intro B r
  apply h.bind (hlen B r)
  intro len r' l hres
  by_cases hle : len ≤ 0
  · rw [if_pos hle]
    exact hf B r'
  · rw [if_neg hle]
    rcases Reader.readCollectionLength_returns hres with ⟨he, -, rfl, hraw, rfl | hok⟩ | ⟨hneg, -⟩
    · exact absurd (by decide) hle
    · exact ht len (by omega) (hraw ▸ Reader.asInt32_lt _) B _ ⟨he, hok⟩
    · exact absurd hneg hle

end Composes

/-! ## Block copies -/

variable {α : Type}

/-- What a block copy does behind the check for its `count * w` bytes. -/
def Copies (w count : Nat) (m : ReadM α) : Prop :=
  ∀ B r, r.error = .none → count * w ≤ r.remaining → ∃ a pos l,
    m B r = ⟨.ret a, { r with pos := pos }, l⟩ ∧ (∀ e ∈ l, e.Free) ∧
      r.pos ≤ pos ∧ (count * w < B.sizeMod → pos = r.pos + count * w)

theorem copies_product (w count : Nat) (f : List UInt8 → α) : Copies w count (do
    let bytes ← Reader.sizeProduct count w
    let bs ← Reader.copy bytes
    Reader.bump bytes
    return f bs : ReadM α) := by
  intro B r he hn
  refine ⟨f (r.rest.take (count * w % B.sizeMod)), r.pos + count * w % B.sizeMod,
    [.product count w, .access r.pos (count * w % B.sizeMod),
      .moved (r.pos + count * w % B.sizeMod)], ?_, by simp [ReadEvent.Free], Nat.le_add_right _ _,
    fun hlt => ?_⟩
  · rw [Prog.bind_apply, Reader.sizeProduct_apply, Res.bind_ret, Reader.copyBump_apply]
    rfl
  · rw [Nat.mod_eq_of_lt hlt]

theorem copies_bytes (count : Nat) (f : List UInt8 → α) : Copies 1 count (do
    let bs ← Reader.copy count
    Reader.bump count
    return f bs : ReadM α) := fun _ r _ _ =>
  ⟨_, r.pos + count, _, Reader.copyBump_apply _ _, by simp [ReadEvent.Free], Nat.le_add_right _ _,
    fun _ => by rw [Nat.mul_one]⟩

theorem copies_readContiguous (w count : Nat) : Copies w count (Reader.readContiguous w count) := by
  intro B r he hn
  by_cases hB : B.endian = .little
  · obtain ⟨a, pos, l, hrun, hl, hpos⟩ := copies_product w count (Reader.splitWords w count) B r he hn
    refine ⟨a, pos, l, ?_, hl, hpos⟩
    rw [Reader.readContiguous, Prog.bind_apply, Prog.ask_apply, Res.bind_ret, if_pos hB, hrun]
    rfl
  · obtain ⟨l, hrun, hl⟩ := Reader.readRaws_ok (B := B) w count r he hn
    refine ⟨Reader.splitWords w count r.rest, r.pos + count * w, l, ?_, hl,
      Nat.le_add_right _ _, fun _ => rfl⟩
    rw [Reader.readContiguous, Prog.bind_apply, Prog.ask_apply, Res.bind_ret, if_neg hB, hrun]
    rfl

theorem Reader.LengthOk.mul_le {w : Nat} {len : Int} {r : MemoryPackReader}
    (h : Reader.LengthOk w len r) (hw : 0 < w) : len.toNat * w ≤ r.remaining :=
  Nat.mul_le_of_le_div _ _ _ (h.present hw)

end MemoryPack
