import MemoryPack.Wire.Members

/-!
# The length table of a `VersionTolerantReader`

The constructor takes the member count from the header and then fills the table one
entry at a time, until it has them all or the reader has failed. Without exceptions a
failure leaves a table that is too short for its count, and every later call still
goes by the count. `Reached` is every state the calls can lead to; whether the index
stays inside the table is decided by the bytes the table was read from.
-/

namespace MemoryPack

open Effect

/-! ## Length entries on the wire -/

/-- The bytes behind the length entry at the front, if that is complete and its marker
is known. -/
def afterLength : List UInt8 → Option (List UInt8)
  | [] => none
  | b :: bs =>
      if b ≤ varintMaxSingle then some bs
      else if b = varintUint16Tag then if 2 ≤ bs.length then some (bs.drop 2) else none
      else if b = varintUint32Tag then if 4 ≤ bs.length then some (bs.drop 4) else none
      else none

/-- The first `n` length entries can be read. -/
def tableReadable : Nat → List UInt8 → Bool
  | 0, _ => true
  | n + 1, bs =>
      match afterLength bs with
      | none => false
      | some bs' => tableReadable n bs'

/-- Every length entry of the object at the cursor but the last can be read, if there is
an object. -/
def TableReadable (r : MemoryPackReader) : Prop :=
  r.error = .none → ∀ count bs, r.rest = count :: bs → count ≤ maxMemberCount →
    tableReadable (count.toNat - 1) bs = true

namespace VersionTolerantReader

/-! ## Reachable states -/

/-- `vt` after the constructor has run on `r₀` and after any `ReadMember`, `SkipMember`
and `Finish` calls, with the reader in state `r`. A round of `Finish` is a
`SkipMember`, so the states inside its loop are reached as well. -/
inductive Reached (B : Build) (r₀ : MemoryPackReader) :
    VersionTolerantReader → MemoryPackReader → Prop where
  | construct {vt r} : Prog.Returns construct B r₀ vt r → Reached B r₀ vt r
  | call {vt vt' r r' x} (c : MemberCall) : Reached B r₀ vt r →
      Prog.Returns (vt.call c) B r (x, vt') r' → Reached B r₀ vt' r'
  | finish {vt vt' r r'} : Reached B r₀ vt r →
      Prog.Returns vt.finish B r vt' r' → Reached B r₀ vt' r'

/-- If the next `ReadMember` or `SkipMember` evaluates `lengths_[index_]`, that is an
entry of the table. -/
def InTable (vt : VersionTolerantReader) : Prop :=
  vt.isNull = false → vt.index < vt.count → vt.index < vt.lengths.length

/-- `Finish()` leaves its loop and returns. -/
def Finishes (B : Build) (vt : VersionTolerantReader) (r : MemoryPackReader) : Prop :=
  ∃ vt' r', Prog.Returns vt.finish B r vt' r' ∧ ¬ vt'.index < vt'.count

/-- The table and the count are those of `vt₀`, and the index has not passed the count. -/
structure Over (vt₀ vt : VersionTolerantReader) : Prop where
  lengths : vt.lengths = vt₀.lengths
  count : vt.count = vt₀.count
  isNull : vt.isNull = vt₀.isNull
  index_le : vt.index ≤ vt.count

end VersionTolerantReader

/-! ## Without exceptions every statement returns -/

def ReturnsQuietly {α : Type} (m : ReadM α) : Prop :=
  ∀ (B : Build) (r : MemoryPackReader), ∃ a r', Prog.Returns m B.quiet r a r'

namespace ReturnsQuietly

theorem pure {α : Type} (a : α) : ReturnsQuietly (Pure.pure a : ReadM α) :=
  fun _ r => ⟨a, r, Prog.returns_pure⟩

theorem bind {α β : Type} {m : ReadM α} {f : α → ReadM β} (hm : ReturnsQuietly m)
    (hf : ∀ a, ReturnsQuietly (f a)) : ReturnsQuietly (m >>= f) := by
  intro B r
  obtain ⟨a, r₁, ha⟩ := hm B r
  obtain ⟨b, r₂, hb⟩ := hf a B r₁
  exact ⟨b, r₂, ha.bind hb⟩

theorem get : ReturnsQuietly (Prog.get : ReadM MemoryPackReader) := fun _ r => ⟨r, r, rfl, rfl⟩

theorem tell (e : ReadEvent) : ReturnsQuietly (Prog.tell e : ReadM Unit) :=
  fun _ r => ⟨(), r, rfl, rfl⟩

theorem fail (code : MemoryPackError) : ReturnsQuietly (Reader.fail code) :=
  fun _ r => ⟨(), r.record code, Prog.returns_iff.mpr ⟨_, Reader.fail_returns rfl code⟩⟩

theorem setPos (pos : Nat) : ReturnsQuietly (Reader.setPos pos) :=
  fun _ r => ⟨(), { r with pos := pos }, rfl, rfl⟩

theorem nullTest : ReturnsQuietly Reader.nullCollectionTest := by
  intro B r
  by_cases h4 : 4 ≤ r.remaining
  · by_cases he : r.error = .none
    · exact ⟨_, _, Prog.returns_iff.mpr ⟨_, Reader.nullCollectionTest_ok he h4⟩⟩
    · exact ⟨_, _, Prog.returns_iff.mpr ⟨_, Reader.nullCollectionTest_failed he h4⟩⟩
  · exact ⟨_, _, Prog.returns_iff.mpr ⟨_, Reader.nullCollectionTest_short h4⟩⟩

theorem basicRules : BasicRules (fun {α} => ReturnsQuietly (α := α)) :=
  .of_host (.of_setPos ⟨pure, bind⟩ get (fun _ => tell _) (fun _ => fail _) setPos) setPos
    (fun _ => tell _) (fun hf _ B r => hf B.quiet B r) nullTest

end ReturnsQuietly

/-! ## Filling the table -/

section Fill

variable {B : Build} {r r' : MemoryPackReader}

theorem rest_eq_cons (h : 1 ≤ r.remaining) :
    ∃ b bs, r.rest = b :: bs ∧ bs.length = r.remaining - 1 := by
  have hlen := CanRead.length_rest r
  cases hrest : r.rest with
  | nil =>
      rw [hrest, List.length_nil] at hlen
      omega
  | cons b bs =>
      rw [hrest, List.length_cons] at hlen
      exact ⟨b, bs, rfl, by omega⟩

/-- A wide entry: the marker has been read and `w` bytes follow it. -/
theorem wideEntry_returns {w n : Nat} {bs : List UInt8} (he : r.error = .none)
    (hrest : r.rest = bs) (h : Prog.Returns (Reader.readRaw w) B.quiet r n r') :
    (w ≤ bs.length ∧ r'.error = .none ∧ r'.rest = bs.drop w) ∨
      (bs.length < w ∧ r'.error ≠ .none) := by
  have hlen := CanRead.length_rest r
  rw [hrest] at hlen
  by_cases hw : w ≤ r.remaining
  · obtain ⟨-, rfl⟩ := h.unique (Prog.returns_iff.mpr ⟨_, Reader.readRaw_ok he hw⟩)
    exact .inl ⟨by omega, he, by rw [Reader.rest_add, hrest]⟩
  · obtain ⟨l, hrun⟩ := Prog.returns_iff.mp h
    rcases Reader.readRaw_returns hrun with ⟨-, hw', -⟩ | ⟨-, herr⟩
    · exact absurd hw' hw
    · exact .inr ⟨by omega, herr⟩

theorem readVarIntLength_returns {n : Nat} (he : r.error = .none)
    (h : Prog.Returns Reader.readVarIntLength B.quiet r n r') :
    (∃ bs, afterLength r.rest = some bs ∧ r'.error = .none ∧ r'.rest = bs) ∨
      (afterLength r.rest = none ∧ r'.error ≠ .none) := by
  obtain ⟨b, r₁, hbyte, hrest⟩ := Prog.returns_bind.mp h
  by_cases h1 : 1 ≤ r.remaining
  · obtain ⟨b, bs, hb, -⟩ := rest_eq_cons h1
    have hr₁ : ({ r with pos := r.pos + 1 } : MemoryPackReader).rest = bs := by
      rw [Reader.rest_add, hb]
      rfl
    obtain ⟨rfl, rfl⟩ := hbyte.unique (Prog.returns_iff.mpr ⟨_, Reader.readByte_ok he h1⟩)
    rw [hb, List.headD_cons] at hrest
    rw [hb, afterLength]
    by_cases hsingle : b ≤ varintMaxSingle
    · rw [if_pos hsingle] at hrest ⊢
      obtain ⟨-, rfl⟩ := hrest
      exact .inl ⟨bs, rfl, he, hr₁⟩
    rw [if_neg hsingle] at hrest ⊢
    by_cases h16 : b = varintUint16Tag
    · rw [if_pos h16] at hrest ⊢
      rcases wideEntry_returns (r := { r with pos := r.pos + 1 }) he hr₁ hrest with
        ⟨hw, hok, hrest'⟩ | ⟨hw, herr⟩
      · exact .inl ⟨_, if_pos hw, hok, hrest'⟩
      · exact .inr ⟨if_neg (Nat.not_le.mpr hw), herr⟩
    rw [if_neg h16] at hrest ⊢
    by_cases h32 : b = varintUint32Tag
    · rw [if_pos h32] at hrest ⊢
      rcases wideEntry_returns (r := { r with pos := r.pos + 1 }) he hr₁ hrest with
        ⟨hw, hok, hrest'⟩ | ⟨hw, herr⟩
      · exact .inl ⟨_, if_pos hw, hok, hrest'⟩
      · exact .inr ⟨if_neg (Nat.not_le.mpr hw), herr⟩
    rw [if_neg h32] at hrest ⊢
    obtain ⟨l, hrun⟩ := Prog.returns_iff.mp hrest
    exact .inr ⟨rfl, (Reader.fail_bind_ret (by decide) hrun).2⟩
  · -- the marker itself is missing
    have hnil : r.rest = [] := by
      rw [← List.length_eq_zero_iff, CanRead.length_rest]
      omega
    obtain ⟨l, hbyte⟩ := Prog.returns_iff.mp hbyte
    rcases Reader.readByte_returns hbyte with ⟨-, h1', -⟩ | ⟨rfl, herr⟩
    · exact absurd h1' h1
    · rw [if_pos (by decide)] at hrest
      obtain ⟨-, rfl⟩ := hrest
      exact .inr ⟨by rw [hnil]; rfl, herr⟩

theorem forWhile_failed {α : Type} {body : α → ReadM α} {a a' : α} (he : r.error ≠ .none) :
    ∀ {n : Nat}, Prog.Returns (Prog.forWhile MemoryPackReader.failed body n a) B r a' r' → a' = a
  | 0, h => (Out.ret.inj h.1).symm
  | n + 1, h => by
      have hfailed : r.failed = true := by simpa [MemoryPackReader.failed] using he
      rw [Prog.forWhile] at h
      obtain ⟨s, r₁, ⟨hs, rfl⟩, h⟩ := Prog.returns_bind.mp h
      obtain rfl := Out.ret.inj hs
      rw [show MemoryPackReader.failed _ = true from hfailed, if_pos rfl] at h
      exact (Out.ret.inj h.1).symm

/-- The loop of the constructor, by induction on the entries to go: it makes one entry
for each readable one and one more for the first that is not. -/
theorem fill_returns : ∀ (n : Nat) {ls ls' : List Nat} {r r' : MemoryPackReader},
    r.error = .none →
    Prog.Returns (Prog.forWhile MemoryPackReader.failed
      (fun ls => do return ls ++ [← Reader.readVarIntLength]) n ls) B.quiet r ls' r' →
    ls'.length ≤ ls.length + n ∧
      (ls'.length = ls.length + n ↔ tableReadable (n - 1) r.rest = true)
  | 0, ls, ls', r, r', _, h => by
      obtain rfl := Out.ret.inj h.1
      exact ⟨Nat.le_refl _, iff_of_true rfl rfl⟩
  | n + 1, ls, ls', r, r', he, h => by
      have hnot : r.failed = false := by simp [MemoryPackReader.failed, he]
      rw [Prog.forWhile] at h
      obtain ⟨s, r₁, ⟨hs, rfl⟩, h⟩ := Prog.returns_bind.mp h
      obtain rfl := Out.ret.inj hs
      rw [show MemoryPackReader.failed _ = false from hnot, if_neg (by decide)] at h
      obtain ⟨ls₁, r₂, hbody, hloop⟩ := Prog.returns_bind.mp h
      obtain ⟨len, r₃, hlen, hls, rfl⟩ := Prog.returns_bind.mp hbody
      obtain rfl := Out.ret.inj hls
      rcases readVarIntLength_returns he hlen with ⟨bs, hafter, hok, hbs⟩ | ⟨hafter, herr⟩
      · have ih := fill_returns n hok hloop
        rw [List.length_append, List.length_singleton, hbs] at ih
        have hreadable : tableReadable n r.rest = tableReadable (n - 1) bs := by
          cases n with
          | zero => rfl
          | succ k =>
              rw [tableReadable, hafter]
              rfl
        rw [Nat.add_sub_cancel, hreadable, ← ih.2]
        omega
      · -- the loop stops behind the entry that could not be read
        obtain rfl := forWhile_failed herr hloop
        rw [List.length_append, List.length_singleton, Nat.add_sub_cancel]
        cases n with
        | zero => exact ⟨Nat.le_refl _, iff_of_true rfl rfl⟩
        | succ k =>
            have hunreadable : tableReadable (k + 1) r.rest = false := by
              rw [tableReadable, hafter]
            rw [hunreadable]
            exact ⟨by omega, iff_of_false (by omega) (by decide)⟩

end Fill

namespace VersionTolerantReader

variable {B : Build} {r r' r₀ : MemoryPackReader} {vt vt' vt₀ : VersionTolerantReader}

/-- The constructor behind its header. -/
theorem construct_returns (h : Prog.Returns construct B r vt r') : ∃ header r₁,
    Prog.Returns Reader.readObjectHeader B r header r₁ ∧
      ((header.isNull = true ∧ vt = { isNull := true }) ∨
        (header.isNull = false ∧ ∃ ls,
          vt = ⟨ls, header.count.toNat, 0, r'.pos, false⟩ ∧
          Prog.Returns (Prog.forWhile MemoryPackReader.failed
            (fun ls => do return ls ++ [← Reader.readVarIntLength]) header.count.toNat [])
              B r₁ ls r')) := by
  obtain ⟨header, r₁, hheader, h⟩ := Prog.returns_bind.mp h
  refine ⟨header, r₁, hheader, ?_⟩
  cases hnull : header.isNull with
  | true =>
      rw [hnull, if_pos rfl] at h
      exact .inl ⟨rfl, (Out.ret.inj h.1).symm⟩
  | false =>
      rw [hnull, if_neg (by decide)] at h
      obtain ⟨ls, r₂, hloop, h⟩ := Prog.returns_bind.mp h
      obtain ⟨s, r₃, ⟨hs, rfl⟩, h⟩ := Prog.returns_bind.mp h
      obtain rfl := Out.ret.inj hs
      obtain ⟨hvt, rfl⟩ := h
      exact .inr ⟨rfl, ls, (Out.ret.inj hvt).symm, hloop⟩

/-- The constructor: a null object has no members, and the table is as long as the count
says exactly when the entries before the last can be read. -/
theorem construct_table (h : Prog.Returns construct B.quiet r vt r') :
    vt.index = 0 ∧ (vt.isNull = true → vt.count = 0) ∧ vt.lengths.length ≤ vt.count ∧
      (vt.lengths.length = vt.count ↔ TableReadable r) := by
  obtain ⟨header, r₁, hheader, hvt⟩ := construct_returns h
  obtain ⟨l, hrun⟩ := Prog.returns_iff.mp hheader
  rcases Reader.readObjectHeader_returns hrun with ⟨he, h1, rfl, hbyte⟩ | ⟨hcount, herr⟩
  · obtain ⟨b, bs, hb, -⟩ := rest_eq_cons h1
    rw [hb, List.headD_cons] at hbyte
    rcases hbyte with ⟨hnull, rfl⟩ | ⟨hmax, rfl⟩
    · rcases hvt with ⟨-, rfl⟩ | ⟨hfalse, -⟩
      · refine ⟨rfl, fun _ => rfl, Nat.le_refl _, iff_of_true rfl ?_⟩
        intro _ count bs' hrest hle
        rw [hb, List.cons.injEq] at hrest
        exact absurd (hrest.1 ▸ hle) (by rw [hnull]; decide)
      · cases hfalse
    · rcases hvt with ⟨htrue, -⟩ | ⟨-, ls, rfl, hloop⟩
      · cases htrue
      · have hr₁ : ({ r with pos := r.pos + 1 } : MemoryPackReader).rest = bs := by
          rw [Reader.rest_add, hb]
          rfl
        obtain ⟨hle, hiff⟩ := fill_returns (r := { r with pos := r.pos + 1 }) _ he hloop
        rw [List.length_nil, Nat.zero_add, hr₁] at hiff
        rw [List.length_nil, Nat.zero_add] at hle
        refine ⟨rfl, (fun hf => nomatch hf), hle, hiff.trans ?_⟩
        constructor
        · intro hreadable _ count bs' hrest _
          rw [hb, List.cons.injEq] at hrest
          obtain ⟨rfl, rfl⟩ := hrest
          exact hreadable
        · intro hreadable
          exact hreadable he b bs hb hmax
  · have hreadable : TableReadable r := by
      intro he count bs hrest hle
      have h1 : 1 ≤ r.remaining := by
        rw [← CanRead.length_rest, hrest]
        exact Nat.succ_pos _
      have hhead : r.rest.headD 0 ≤ maxMemberCount := by rwa [hrest]
      obtain ⟨-, rfl⟩ := hheader.unique
        (Prog.returns_iff.mpr ⟨_, Reader.readObjectHeader_ok he h1 hhead⟩)
      exact absurd he herr
    rcases hvt with ⟨-, rfl⟩ | ⟨-, ls, rfl, hloop⟩
    · exact ⟨rfl, fun _ => rfl, Nat.le_refl _, iff_of_true rfl hreadable⟩
    · rw [hcount] at hloop ⊢
      obtain rfl := Out.ret.inj hloop.1
      exact ⟨rfl, fun _ => rfl, Nat.le_refl _, iff_of_true rfl hreadable⟩

/-! ## Every state reached -/

/-- `SkipMember` past the last member or of a null object does nothing, and otherwise
moves the index. -/
theorem skipMember_returns {x : Bool} (h : Prog.Returns vt.skipMember B r (x, vt') r') :
    ((vt.isNull = true ∨ vt.count ≤ vt.index) ∧ vt' = vt ∧ r' = r) ∨
      (vt.index < vt.count ∧ ∃ next, vt' = { vt with index := vt.index + 1, next := next }) := by
  rw [skipMember] at h
  by_cases hpast : vt.isNull = true ∨ vt.index ≥ vt.count
  · rw [if_pos hpast] at h
    obtain ⟨hx, rfl⟩ := h
    exact .inl ⟨hpast, (Prod.mk.inj (Out.ret.inj hx)).2.symm, rfl⟩
  · rw [if_neg hpast] at h
    obtain ⟨len, r₁, -, h⟩ := Prog.returns_bind.mp h
    obtain ⟨B', r₂, -, h⟩ := Prog.returns_bind.mp h
    obtain ⟨u, r₃, -, h⟩ := Prog.returns_bind.mp h
    have hx := Out.ret.inj h.1
    exact .inr ⟨Nat.not_le.mp fun hle => hpast (.inr hle), _, (Prod.mk.inj hx).2.symm⟩

theorem readMember_returns {decode : Val → ReadM Val} {out v : Val} {x : Bool}
    (h : Prog.Returns (readMember decode vt out) B r (x, v, vt') r') :
    vt' = vt ∨ (vt.index < vt.count ∧
      ∃ next, vt' = { vt with index := vt.index + 1, next := next }) := by
  rw [readMember] at h
  by_cases hpast : vt.isNull = true ∨ vt.index ≥ vt.count
  · rw [if_pos hpast] at h
    have hx := Out.ret.inj h.1
    exact .inl (Prod.mk.inj (Prod.mk.inj hx).2).2.symm
  · rw [if_neg hpast] at h
    have hlt : vt.index < vt.count := Nat.not_le.mp fun hle => hpast (.inr hle)
    obtain ⟨len, r₁, -, h⟩ := Prog.returns_bind.mp h
    obtain ⟨B', r₂, -, h⟩ := Prog.returns_bind.mp h
    obtain ⟨u, r₃, -, h⟩ := Prog.returns_bind.mp h
    obtain ⟨b, r₄, -, h⟩ := Prog.returns_bind.mp h
    cases b with
    | true =>
        rw [if_pos rfl] at h
        have hx := Out.ret.inj h.1
        exact .inr ⟨hlt, vt.next, (Prod.mk.inj (Prod.mk.inj hx).2).2.symm⟩
    | false =>
        rw [if_neg (by decide)] at h
        obtain ⟨w, r₅, -, h⟩ := Prog.returns_bind.mp h
        obtain ⟨u', r₆, -, h⟩ := Prog.returns_bind.mp h
        have hx := Out.ret.inj h.1
        exact .inr ⟨hlt, _, (Prod.mk.inj (Prod.mk.inj hx).2).2.symm⟩

theorem Over.step (h : Over vt₀ vt) (hstep : vt' = vt ∨ (vt.index < vt.count ∧
    ∃ next, vt' = { vt with index := vt.index + 1, next := next })) : Over vt₀ vt' := by
  rcases hstep with rfl | ⟨hlt, next, rfl⟩
  · exact h
  · exact ⟨h.lengths, h.count, h.isNull, hlt⟩

theorem Over.skip (h : Over vt₀ vt) {x : Bool}
    (hskip : Prog.Returns vt.skipMember B r (x, vt') r') : Over vt₀ vt' := by
  refine h.step ?_
  rcases skipMember_returns hskip with ⟨-, rfl, -⟩ | hmoved
  · exact .inl rfl
  · exact .inr hmoved

theorem Over.call (h : Over vt₀ vt) (c : MemberCall) {x : Bool × Option Val}
    (hcall : Prog.Returns (vt.call c) B r (x, vt') r') : Over vt₀ vt' := by
  cases c with
  | read decode out =>
      obtain ⟨⟨sent, v, vt₁⟩, r₁, hread, hx, -⟩ := Prog.returns_bind.mp hcall
      obtain rfl := (Prod.mk.inj (Out.ret.inj hx)).2
      exact h.step (readMember_returns hread)
  | skip =>
      obtain ⟨⟨sent, vt₁⟩, r₁, hskip, hx, -⟩ := Prog.returns_bind.mp hcall
      obtain rfl := (Prod.mk.inj (Out.ret.inj hx)).2
      exact h.skip hskip

theorem Over.skipRest : ∀ {left : Nat} {vt vt' : VersionTolerantReader} {r r' : MemoryPackReader},
    Over vt₀ vt → Prog.Returns (skipRest left vt) B r vt' r' → Over vt₀ vt'
  | 0, _, _, _, _, h, hrest => Out.ret.inj hrest.1 ▸ h
  | left + 1, vt, vt', r, r', h, hrest => by
      obtain ⟨⟨x, vt₁⟩, r₁, hskip, hrest⟩ := Prog.returns_bind.mp hrest
      exact (h.skip hskip).skipRest hrest

theorem finish_returns (h : Prog.Returns vt.finish B r vt' r') :
    ∃ r₁, Prog.Returns (skipRest (vt.count - vt.index) vt) B r vt' r₁ := by
  obtain ⟨vt₁, r₁, hskip, hrest⟩ := Prog.returns_bind.mp h
  cases hnull : !vt₁.isNull with
  | true =>
      rw [hnull, if_pos rfl] at hrest
      obtain ⟨u, r₂, -, hvt, -⟩ := Prog.returns_bind.mp hrest
      exact ⟨r₁, Out.ret.inj hvt ▸ hskip⟩
  | false =>
      rw [hnull, if_neg (by decide)] at hrest
      exact ⟨r₁, Out.ret.inj hrest.1 ▸ hskip⟩

/-- Every state reached goes by the table and the count of the constructor. -/
theorem over_of_reached (h : Reached B r₀ vt r) : ∃ vt₀ r₁,
    Prog.Returns construct B r₀ vt₀ r₁ ∧ (vt₀.index ≤ vt₀.count → Over vt₀ vt) := by
  induction h with
  | construct hc => exact ⟨_, _, hc, fun hle => ⟨rfl, rfl, rfl, hle⟩⟩
  | call c _ hcall ih =>
      obtain ⟨vt₀, r₁, hc, hover⟩ := ih
      exact ⟨vt₀, r₁, hc, fun hle => (hover hle).call c hcall⟩
  | finish _ hfinish ih =>
      obtain ⟨vt₀, r₁, hc, hover⟩ := ih
      obtain ⟨r₂, hskip⟩ := finish_returns hfinish
      exact ⟨vt₀, r₁, hc, fun hle => (hover hle).skipRest hskip⟩

/-- `Finish()` ends its loop after one round for each member left. -/
theorem skipRest_ends : ∀ {left : Nat} {vt vt' : VersionTolerantReader} {r r' : MemoryPackReader},
    vt.isNull = false → vt.count - vt.index ≤ left →
    Prog.Returns (skipRest left vt) B r vt' r' → ¬ vt'.index < vt'.count
  | 0, vt, vt', r, r', _, hleft, h => by
      obtain rfl := Out.ret.inj h.1
      omega
  | left + 1, vt, vt', r, r', hnull, hleft, h => by
      obtain ⟨⟨x, vt₁⟩, r₁, hskip, hrest⟩ := Prog.returns_bind.mp h
      rcases skipMember_returns hskip with ⟨hpast, rfl, rfl⟩ | ⟨hlt, next, rfl⟩
      · have hge : vt₁.count ≤ vt₁.index := hpast.resolve_left (by rw [hnull]; decide)
        exact skipRest_ends hnull (by omega) hrest
      · have hnull' : ({ vt with index := vt.index + 1, next := next } :
            VersionTolerantReader).isNull = false := hnull
        have hfewer : vt.count - (vt.index + 1) ≤ left := by omega
        exact skipRest_ends hnull' hfewer hrest

/-- In every state reached, `Finish()` returns. -/
theorem finishes_of_reached (h : Reached B.quiet r₀ vt r) : vt.Finishes B.quiet r := by
  obtain ⟨vt₀, r₁, hconstruct, hover⟩ := over_of_reached h
  obtain ⟨hindex, hnull, -, -⟩ := construct_table hconstruct
  have hvt := hover (by omega)
  obtain ⟨vt', r', hfinish⟩ := ReturnsQuietly.basicRules.finish vt B r
  obtain ⟨r₂, hskip⟩ := finish_returns hfinish
  refine ⟨vt', r', hfinish, ?_⟩
  cases hn : vt.isNull with
  | false => exact skipRest_ends hn (Nat.le_refl _) hskip
  | true =>
      -- a null object has a count of zero, so the loop is not entered
      have hcount : vt.count = 0 := by rw [hvt.count, hnull (hvt.isNull ▸ hn)]
      rw [hcount, Nat.zero_sub] at hskip
      obtain rfl := Out.ret.inj hskip.1
      omega

/-- Skipping leads to every index up to the count. -/
theorem reached_index (h : Reached B.quiet r₀ vt r) (hnull : vt.isNull = false) :
    ∀ k, vt.index + k ≤ vt.count → ∃ vt' r', Reached B.quiet r₀ vt' r' ∧ Over vt vt' ∧
      vt'.index = vt.index + k
  | 0, hk => ⟨vt, r, h, ⟨rfl, rfl, rfl, hk⟩, rfl⟩
  | k + 1, hk => by
      obtain ⟨vt₁, r₁, hreached, hover, hindex⟩ := reached_index h hnull k (by omega)
      obtain ⟨⟨x, vt₂⟩, r₂, hskip⟩ := ReturnsQuietly.basicRules.skipMember vt₁ B r₁
      have hcall : Prog.Returns (vt₁.call .skip) B.quiet r₁ ((x, none), vt₂) r₂ :=
        hskip.bind Prog.returns_pure
      refine ⟨vt₂, r₂, hreached.call .skip hcall, hover.skip hskip, ?_⟩
      have hcount := hover.count
      rcases skipMember_returns hskip with ⟨hpast, -, -⟩ | ⟨-, next, rfl⟩
      · rcases hpast with hn | hge
        · rw [hover.isNull, hnull] at hn
          cases hn
        · omega
      · show vt₁.index + 1 = _
        omega

end VersionTolerantReader

open VersionTolerantReader in
/-- In the build without exceptions, on every input: `lengths_[index_]` is in bounds in
every state that any `ReadMember`, `SkipMember` and `Finish` calls lead to, and
`Finish()` returns there, exactly when every entry of the table but the last could be
read. -/
theorem length_table_in_bounds_iff (B : Build) (r₀ : MemoryPackReader) :
    (∀ vt r, Reached B.quiet r₀ vt r → vt.InTable ∧ vt.Finishes B.quiet r) ↔
      TableReadable r₀ := by
  obtain ⟨vt₀, r₁, hconstruct⟩ := ReturnsQuietly.basicRules.construct B r₀
  obtain ⟨hindex, hnull, hle, hiff⟩ := construct_table hconstruct
  constructor
  · intro hall
    refine hiff.mp (Nat.le_antisymm hle (Nat.not_lt.mp fun hshort => ?_))
    have hn : vt₀.isNull = false := by
      rw [← Bool.not_eq_true]
      intro h
      rw [hnull h] at hshort
      omega
    -- skip as many members as the table has entries
    obtain ⟨vt, r, hreached, hover, hk⟩ := reached_index (.construct hconstruct) hn
      vt₀.lengths.length (by omega)
    have hin := (hall vt r hreached).1 (hover.isNull.trans hn) (by rw [hk, hover.count]; omega)
    rw [hk, hover.lengths] at hin
    omega
  · intro hreadable vt r hreached
    refine ⟨?_, finishes_of_reached hreached⟩
    intro hn hlt
    obtain ⟨vt₁, r₂, hconstruct', hover⟩ := over_of_reached hreached
    obtain ⟨rfl, rfl⟩ := hconstruct'.unique hconstruct
    have hover := hover (by omega)
    rw [hover.lengths, hiff.mpr hreadable, ← hover.count]
    exact hlt

/-- A header for three members, one length, and the end of the input. -/
def cutTable : MemoryPackReader := { data := [3, 5] }

open VersionTolerantReader in
/-- After two members the index is behind the table and still below the count. -/
theorem cut_table_read_out_of_bounds :
    ¬ ∀ vt r, Reached ⟨false, .little, .w64, 0⟩ cutTable vt r →
      vt.InTable ∧ vt.Finishes ⟨false, .little, .w64, 0⟩ r := by
  intro hall
  have hconstruct : Reached ⟨false, .little, .w64, 0⟩ cutTable
      { lengths := [5, 0], count := 3, next := 2 }
      { cutTable with pos := 2, error := .bufferUnderflow } := .construct ⟨rfl, rfl⟩
  have hone : Reached ⟨false, .little, .w64, 0⟩ cutTable
      { lengths := [5, 0], count := 3, index := 1, next := 7 }
      { cutTable with pos := 2, error := .bufferUnderflow } :=
    hconstruct.call .skip (x := (true, none)) ⟨rfl, rfl⟩
  have htwo : Reached ⟨false, .little, .w64, 0⟩ cutTable
      { lengths := [5, 0], count := 3, index := 2, next := 7 }
      { cutTable with pos := 2, error := .bufferUnderflow } :=
    hone.call .skip (x := (true, none)) ⟨rfl, rfl⟩
  exact absurd ((hall _ _ htwo).1 rfl (by decide)) (by decide)

/-! ## What the C# peer makes of a length

Its reader is not part of this repository. It takes the markers for the type codes of
signed numbers. -/

/-- `static_cast<int16_t>` of a number. -/
def asInt16 (n : Int) : Int := Int.bmod n (2 ^ 16)

/-- A decoder of length entries that reads a small byte as itself, `0x84` as the marker of
an `int16` and `0x82` as the marker of an `int32`. It gives back the number and the bytes
behind it. -/
structure CSharpLengths (decode : List UInt8 → Option (Int × List UInt8)) : Prop where
  single : ∀ (b : UInt8) (s : List UInt8), b ≤ varintMaxSingle →
    decode (b :: s) = some ((b.toNat : Int), s)
  int16 : ∀ n < 2 ^ 16, ∀ s : List UInt8,
    decode (varintUint16Tag :: (LittleEndian.leBytes 2 n ++ s)) = some (asInt16 n, s)
  int32 : ∀ n < 2 ^ 32, ∀ s : List UInt8,
    decode (varintUint32Tag :: (LittleEndian.leBytes 4 n ++ s)) = some (asInt32 n, s)

theorem asInt16_eq_iff {n : Nat} (h : n < 2 ^ 16) : asInt16 n = n ↔ n < 2 ^ 15 := by
  unfold asInt16
  rw [Int.bmod_def]
  split <;> omega

/-- Every number between 2^15 and 2^16 is written behind the marker of an `int16`. -/
theorem CSharpLengths.decodes_iff {decode : List UInt8 → Option (Int × List UInt8)}
    (h : CSharpLengths decode) {n : Nat} (hn : n < 2 ^ 31) (s : List UInt8) :
    decode (encodeVarInt n ++ s) = some ((n : Int), s) ↔ n < 2 ^ 15 ∨ 2 ^ 16 ≤ n := by
  unfold encodeVarInt
  split
  · next hsmall =>
      have hn' : n ≤ 127 := hsmall
      have hbyte : (UInt8.ofNat n).toNat = n := by
        rw [UInt8.toNat_ofNat']
        omega
      have hle : UInt8.ofNat n ≤ varintMaxSingle := by
        rw [UInt8.le_iff_toNat_le, hbyte]
        exact hsmall
      rw [List.singleton_append, h.single _ s hle, hbyte]
      exact iff_of_true rfl (.inl (by omega))
  split
  · next hwide =>
      have hlt : n < 2 ^ 16 := by omega
      rw [List.cons_append, h.int16 n hlt s, Option.some.injEq, Prod.mk.injEq, and_iff_left rfl,
        asInt16_eq_iff hlt]
      omega
  · next hwide =>
      rw [List.cons_append, h.int32 n (by omega) s,
        Reader.asInt32_of_lt (by omega) (by omega)]
      exact iff_of_true rfl (.inr (by omega))

/-- For every length of a member: `WriteVarIntLength` emits bytes that the C# reader
decodes to the same length, and no more than these, exactly when the length is below
2^15 or at least 2^16. -/
theorem csharp_length_iff {decode : List UInt8 → Option (Int × List UInt8)}
    (hdecode : CSharpLengths decode) (B : Build) {n : Nat} (hn : n < 2 ^ 31) :
    ∃ bs, Emits B (Writer.writeVarIntLength n) (.ret ()) bs .none ∧
      ((∀ s, decode (bs ++ s) = some ((n : Int), s)) ↔ n < 2 ^ 15 ∨ 2 ^ 16 ≤ n) := by
  refine ⟨encodeVarInt n, Emits.writeVarIntLength n, ?_⟩
  constructor
  · intro hall
    exact (hdecode.decodes_iff hn []).mp (hall [])
  · intro h s
    exact (hdecode.decodes_iff hn s).mpr h

/-- A reader of signed lengths. -/
def signedLength : List UInt8 → Option (Int × List UInt8)
  | [] => none
  | b :: bs =>
      if b ≤ varintMaxSingle then some (b.toNat, bs)
      else if b = varintUint16Tag then
        if 2 ≤ bs.length then some (asInt16 (LittleEndian.leNat (bs.take 2)), bs.drop 2) else none
      else if b = varintUint32Tag then
        if 4 ≤ bs.length then some (asInt32 (LittleEndian.leNat (bs.take 4)), bs.drop 4) else none
      else none

theorem csharpLengths_signedLength : CSharpLengths signedLength := by
  have htake : ∀ w n (s : List UInt8), (LittleEndian.leBytes w n ++ s).take w =
      LittleEndian.leBytes w n ∧ (LittleEndian.leBytes w n ++ s).drop w = s ∧
        w ≤ (LittleEndian.leBytes w n ++ s).length := by
    intro w n s
    have hlen := LittleEndian.length_leBytes w n
    exact ⟨List.take_left' hlen, List.drop_left' hlen, by rw [List.length_append]; omega⟩
  constructor
  · intro b s hb
    rw [signedLength, if_pos hb]
  · intro n hn s
    obtain ⟨hfront, hback, hlen⟩ := htake 2 n s
    rw [signedLength, if_neg (by decide), if_pos rfl, if_pos hlen, hfront, hback,
      LittleEndian.leNat_leBytes hn]
  · intro n hn s
    obtain ⟨hfront, hback, hlen⟩ := htake 4 n s
    rw [signedLength, if_neg (by decide), if_neg (by decide), if_pos rfl, if_pos hlen, hfront,
      hback, LittleEndian.leNat_leBytes hn]

theorem csharp_length_iff_130 : CSharpLengths signedLength ∧ ∃ bs,
    Emits ⟨true, .little, .w64, 0⟩ (Writer.writeVarIntLength 130) (.ret ()) bs .none ∧
      ((∀ s, signedLength (bs ++ s) = some (((130 : Nat) : Int), s)) ↔ 130 < 2 ^ 15 ∨ 2 ^ 16 ≤ 130) :=
  ⟨csharpLengths_signedLength, csharp_length_iff csharpLengths_signedLength _ (by decide)⟩

/-- A member of 40000 bytes has a negative length there. -/
theorem length_40000_is_negative : CSharpLengths signedLength ∧
    (Writer.writeVarIntLength 40000 ⟨true, .little, .w64, 0⟩ {}).st.getSpan = [0x84, 0x40, 0x9C] ∧
    signedLength [0x84, 0x40, 0x9C] = some (-25536, []) :=
  ⟨csharpLengths_signedLength, by decide, by decide⟩

end MemoryPack
