import MemoryPack.Reader.Landing
import MemoryPack.Wire.Containment

/-!
# Where the calls of a `VersionTolerantReader` leave the cursor

`ReadMember`, `SkipMember` and `Finish` form the end of a member by adding its recorded
length to the end of the one before it, in `size_t`, and only then compare it with the
size of the input. The sum of the lengths passed so far is what the cursor should have
moved by (`CursorExact`). It does, exactly when no such addition wraps: a sum that wraps
lands in front of the member and is accepted.
-/

namespace MemoryPack

open Effect LittleEndian

/-! ## The table on the wire -/

/-- The value of the length entry at the front. -/
def entryLength : List UInt8 → Nat
  | [] => 0
  | b :: bs =>
      if b ≤ varintMaxSingle then b.toNat
      else if b = varintUint16Tag then leNat (bs.take 2)
      else if b = varintUint32Tag then leNat (bs.take 4)
      else 0

/-- The first `n` length entries and the bytes behind them. -/
def lengthTable : Nat → List UInt8 → Option (List Nat × List UInt8)
  | 0, bs => some ([], bs)
  | n + 1, bs => do
      let bs' ← afterLength bs
      let (ls, after) ← lengthTable n bs'
      return (entryLength bs :: ls, after)

/-- The object at the cursor, if there is one, has no member that begins inside the input
and whose exact end is no `size_t`. -/
def EndsFit (B : Build) (r : MemoryPackReader) : Prop :=
  r.error = .none → ∀ count bs lengths after, r.rest = count :: bs → count ≤ maxMemberCount →
    lengthTable count.toNat bs = some (lengths, after) → ∀ k < lengths.length,
      r.size - after.length + (lengths.take k).sum ≤ r.size →
        r.size - after.length + (lengths.take (k + 1)).sum < B.sizeMod

/-- The reader in front of the last bytes of its input. -/
def MemoryPackReader.before (r : MemoryPackReader) (bs : List UInt8) : MemoryPackReader :=
  { r with pos := r.size - bs.length }

/-! ## Calls -/

/-- `vt.ReadMember(out)` of a type of the codec, `vt.SkipMember()`, `vt.Finish()`. -/
inductive TableCall where
  | read (t : Ty) (out : Val)
  | skip
  | finish

namespace VersionTolerantReader

/-- The table after a call. -/
def apply (S : Schema) (vt : VersionTolerantReader) : TableCall → ReadM VersionTolerantReader
  | .read t out => do
      let (_, _, vt') ← vt.readMember (Reader.read S t) out
      return vt'
  | .skip => do
      let (_, vt') ← vt.skipMember
      return vt'
  | .finish => vt.finish

def applyAll (S : Schema) : List TableCall → VersionTolerantReader → ReadM VersionTolerantReader
  | [], vt => return vt
  | c :: cs, vt => do applyAll S cs (← vt.apply S c)

/-- The offset the members in front of the next one add up to, without wrapping; the first
body is at `base`. -/
def exactOffset (vt : VersionTolerantReader) (base : Nat) : Nat :=
  base + (vt.lengths.take vt.index).sum

end VersionTolerantReader

open VersionTolerantReader in
/-- After any calls that did not fail, the cursor stands where the lengths of the members
passed so far add up to; the next call does not move it backwards, and fails when the
member it passes ends behind the input. -/
def CursorExact (S : Schema) (B : Build) (r₀ : MemoryPackReader) : Prop :=
  ∀ vt₀ r₁, Succeeds B construct r₀ vt₀ r₁ → ∀ cs vt r, Succeeds B (applyAll S cs vt₀) r₁ vt r →
    r.pos = vt.exactOffset r₁.pos ∧
    ∀ c vt' r', Succeeds B (vt.apply S c) r vt' r' →
      r.pos ≤ r'.pos ∧ vt'.exactOffset r₁.pos ≤ r.size

theorem Build.two_pow_le_sizeMod (B : Build) : 2 ^ 32 ≤ B.sizeMod := by
  unfold Build.sizeMod
  cases B.size <;> decide

/-! ## Statements that succeed -/

section Statements

variable {B : Build} {r r' : MemoryPackReader}

/-- A first part that succeeds is stepped over. -/
theorem succeeds_andThen {α β : Type} {m : ReadM α} {f : α → ReadM β} {a : α} {b : β}
    {r₁ : MemoryPackReader} (hf : ∀ a, Sticky (f a)) (h : Succeeds B m r a r₁) :
    Succeeds B (m >>= f) r b r' ↔ Succeeds B (f a) r₁ b r' := by
  rw [succeeds_bind hf]
  constructor
  · rintro ⟨a', r₂, hm, hrest⟩
    obtain ⟨rfl, rfl⟩ := h.unique hm
    exact hrest
  · intro hrest
    exact ⟨a, r₁, h, hrest⟩

theorem succeeds_pure {α : Type} {a b : α} :
    Succeeds B (pure a : ReadM α) r b r' ↔ r.error = .none ∧ b = a ∧ r' = r := by
  constructor
  · rintro ⟨⟨hb, hr⟩, he⟩
    obtain rfl : r = r' := hr
    exact ⟨he, (Out.ret.inj hb).symm, rfl⟩
  · rintro ⟨he, rfl, rfl⟩
    exact ⟨Prog.returns_pure, he⟩

theorem not_succeeds_failWith {α : Type} {code : MemoryPackError} (hc : code ≠ .none) (a b : α) :
    ¬ Succeeds B (Reader.fail code >>= fun _ => pure a) r b r' := by
  rintro ⟨h, he⟩
  obtain ⟨l, hrun⟩ := Prog.returns_iff.mp h
  exact (Reader.fail_bind_ret hc hrun).2 he

theorem succeeds_readRaw {w n : Nat} : Succeeds B (Reader.readRaw w) r n r' ↔
    r.error = .none ∧ w ≤ r.remaining ∧ n = leNat (r.rest.take w) ∧
      r' = { r with pos := r.pos + w } := by
  constructor
  · rintro ⟨h, he⟩
    obtain ⟨l, hrun⟩ := Prog.returns_iff.mp h
    rcases Reader.readRaw_returns hrun with hok | ⟨-, herr⟩
    · exact hok
    · exact absurd he herr
  · rintro ⟨he, hw, rfl, rfl⟩
    exact ⟨Prog.returns_iff.mpr ⟨_, Reader.readRaw_ok he hw⟩, he⟩

theorem succeeds_seek {pos : Nat} {u : Unit} : Succeeds B (Reader.seek pos) r u r' ↔
    r.error = .none ∧ pos ≤ r.size ∧ r' = { r with pos := pos } := by
  by_cases hpos : pos ≤ r.size
  · have hseek := Reader.seek_within (B := B) hpos
    constructor
    · rintro ⟨⟨-, hr⟩, he⟩
      rw [hseek] at hr
      obtain rfl : { r with pos := pos } = r' := hr
      exact ⟨he, hpos, rfl⟩
    · rintro ⟨he, -, rfl⟩
      exact ⟨Prog.returns_iff.mpr ⟨_, hseek⟩, he⟩
  · refine iff_of_false ?_ fun h => hpos h.2.1
    rintro ⟨⟨hout, hr⟩, he⟩
    rw [Reader.seek_past (Nat.not_le.mp hpos)] at hout hr
    cases hB : B.exceptions with
    | true =>
        rw [Reader.fail_throws hB] at hout
        cases hout
    | false =>
        rw [Reader.fail_returns hB] at hr
        exact Reader.record_error_ne (by decide) (hr ▸ he)

/-- The cursor moved over `n` bytes that were there. -/
theorem before_drop {n : Nat} (hn : n ≤ r.remaining) (hpos : r.pos ≤ r.size) :
    r.before (r.rest.drop n) = { r with pos := r.pos + n } := by
  have hlen : (r.rest.drop n).length = r.remaining - n := by
    rw [List.length_drop, CanRead.length_rest]
  have hsize : r.remaining = r.size - r.pos := rfl
  rw [MemoryPackReader.before, hlen]
  congr 1
  omega

theorem rest_before {bs : List UInt8} (h : bs <:+ r.rest) : (r.before bs).rest = bs := by
  have hdata : bs <:+ r.data := h.trans (List.drop_suffix _ _)
  exact (List.suffix_iff_eq_drop.mp hdata).symm

theorem pos_lt_of_rest {b : UInt8} {bs : List UInt8} (h : r.rest = b :: bs) : r.pos < r.size := by
  have hlen := CanRead.length_rest r
  have hsize : r.remaining = r.size - r.pos := rfl
  rw [h, List.length_cons] at hlen
  omega

theorem succeeds_readByte {b : UInt8} : Succeeds B Reader.readByte r b r' ↔
    r.error = .none ∧ ∃ bs, r.rest = b :: bs ∧ r' = r.before bs := by
  constructor
  · rintro ⟨h, he⟩
    obtain ⟨l, hrun⟩ := Prog.returns_iff.mp h
    rcases Reader.readByte_returns hrun with ⟨he, h1, rfl, rfl⟩ | ⟨-, herr⟩
    · obtain ⟨b, bs, hrest, -⟩ := rest_eq_cons h1
      have hbefore := before_drop h1 (pos_lt_of_rest hrest).le
      rw [hrest] at hbefore
      exact ⟨he, bs, by rw [hrest]; rfl, hbefore.symm⟩
    · exact absurd he herr
  · rintro ⟨he, bs, hrest, rfl⟩
    have h1 : 1 ≤ r.remaining := by
      rw [← CanRead.length_rest, hrest]
      exact Nat.succ_pos _
    have hbefore := before_drop h1 (pos_lt_of_rest hrest).le
    have hbyte := Reader.readByte_ok (B := B) he h1
    rw [hrest] at hbefore hbyte
    exact ⟨Prog.returns_iff.mpr ⟨_, hbefore ▸ hbyte⟩, he⟩

theorem afterLength_suffix : ∀ {bs after : List UInt8}, afterLength bs = some after → after <:+ bs
  | [], _, h => nomatch h
  | b :: bs, after, h => by
      have htail := List.suffix_cons b bs
      rw [afterLength] at h
      split at h
      · exact Option.some.inj h ▸ htail
      split at h
      · obtain ⟨-, h⟩ := Option.ite_none_right_eq_some.mp h
        exact Option.some.inj h ▸ (List.drop_suffix 2 bs).trans htail
      split at h
      · obtain ⟨-, h⟩ := Option.ite_none_right_eq_some.mp h
        exact Option.some.inj h ▸ (List.drop_suffix 4 bs).trans htail
      · cases h

/-- Behind a marker, `w` bytes hold the length. -/
theorem succeeds_wideEntry {w n : Nat} {bs : List UInt8} (he : r.error = .none)
    (hrest : r.rest = bs) (hpos : r.pos ≤ r.size) : Succeeds B (Reader.readRaw w) r n r' ↔
      n = leNat (bs.take w) ∧ ∃ after,
        (if w ≤ bs.length then some (bs.drop w) else none) = some after ∧ r' = r.before after := by
  have hlen := CanRead.length_rest r
  rw [hrest] at hlen
  rw [succeeds_readRaw, hrest]
  constructor
  · rintro ⟨-, hw, rfl, rfl⟩
    exact ⟨rfl, bs.drop w, if_pos (hlen ▸ hw), hrest ▸ (before_drop hw hpos).symm⟩
  · rintro ⟨rfl, after, hafter, rfl⟩
    obtain ⟨hw, rfl⟩ : w ≤ bs.length ∧ bs.drop w = after := by
      simpa [Option.ite_none_right_eq_some] using hafter
    exact ⟨he, hlen ▸ hw, rfl, hrest ▸ before_drop (hlen ▸ hw) hpos⟩

theorem succeeds_readVarIntLength {n : Nat} : Succeeds B Reader.readVarIntLength r n r' ↔
    r.error = .none ∧ n = entryLength r.rest ∧
      ∃ after, afterLength r.rest = some after ∧ r' = r.before after := by
  have hsticky : ∀ b : UInt8, Sticky (do
      if b ≤ varintMaxSingle then return b.toNat
      if b = varintUint16Tag then return ← Reader.readRaw 2
      if b = varintUint32Tag then return ← Reader.readRaw 4
      Reader.fail .invalidHeader
      return 0 : ReadM Nat) := fun b => Prog.Closed.ite (fun _ => Sticky.pure _) fun _ =>
    Prog.Closed.ite (fun _ => Sticky.basicRules.readRaw 2) fun _ =>
      Prog.Closed.ite (fun _ => Sticky.basicRules.readRaw 4) fun _ =>
        (Sticky.fail (by decide)).bind fun _ => .pure _
  cases hrest : r.rest with
  | nil =>
      constructor
      · intro h
        obtain ⟨b, r₁, hbyte, -⟩ := (succeeds_bind hsticky).mp h
        obtain ⟨-, bs, hcons, -⟩ := succeeds_readByte.mp hbyte
        rw [hrest] at hcons
        cases hcons
      · rintro ⟨-, -, after, hafter, -⟩
        cases hafter
  | cons b bs =>
      by_cases he : r.error = .none
      · have hbyte : Succeeds B Reader.readByte r b (r.before bs) :=
          succeeds_readByte.mpr ⟨he, bs, hrest, rfl⟩
        have hbs : (r.before bs).rest = bs := rest_before (hrest ▸ List.suffix_cons b bs)
        have hpos : (r.before bs).pos ≤ (r.before bs).size := Nat.sub_le _ _
        rw [Reader.readVarIntLength, succeeds_andThen hsticky hbyte, afterLength, entryLength]
        by_cases hsingle : b ≤ varintMaxSingle
        · rw [if_pos hsingle, if_pos hsingle, if_pos hsingle]
          constructor
          · intro h
            obtain ⟨-, rfl, rfl⟩ := succeeds_pure.mp h
            exact ⟨he, rfl, bs, rfl, rfl⟩
          · rintro ⟨-, rfl, after, hafter, rfl⟩
            obtain rfl := Option.some.inj hafter
            exact succeeds_pure.mpr ⟨he, rfl, rfl⟩
        rw [if_neg hsingle, if_neg hsingle, if_neg hsingle]
        by_cases h16 : b = varintUint16Tag
        · rw [if_pos h16, if_pos h16, if_pos h16, and_iff_right he]
          exact succeeds_wideEntry (r := r.before bs) he hbs hpos
        rw [if_neg h16, if_neg h16, if_neg h16]
        by_cases h32 : b = varintUint32Tag
        · rw [if_pos h32, if_pos h32, if_pos h32, and_iff_right he]
          exact succeeds_wideEntry (r := r.before bs) he hbs hpos
        rw [if_neg h32, if_neg h32, if_neg h32]
        refine iff_of_false (not_succeeds_failWith (by decide) 0 n) ?_
        rintro ⟨-, -, after, hafter, -⟩
        cases hafter
      · refine iff_of_false (fun h => ?_) fun h => he h.1
        exact he (h.start Sticky.basicRules.readVarIntLength)

/-- The loop of the constructor, by induction on the entries to go. -/
theorem succeeds_fill : ∀ (n : Nat) {ls ls' : List Nat} {r r' : MemoryPackReader},
    r.pos ≤ r.size → (Succeeds B (Prog.forWhile MemoryPackReader.failed
      (fun ls => do return ls ++ [← Reader.readVarIntLength]) n ls) r ls' r' ↔
    r.error = .none ∧ ∃ lengths after, lengthTable n r.rest = some (lengths, after) ∧
      ls' = ls ++ lengths ∧ r' = r.before after)
  | 0, ls, ls', r, r', hpos => by
      have hsame : r.before r.rest = r := by
        have h := before_drop (Nat.zero_le r.remaining) hpos
        rwa [List.drop_zero] at h
      rw [Prog.forWhile, succeeds_pure]
      constructor
      · rintro ⟨he, rfl, rfl⟩
        exact ⟨he, [], r'.rest, rfl, by rw [List.append_nil], hsame.symm⟩
      · rintro ⟨he, lengths, after, htable, rfl, rfl⟩
        obtain ⟨rfl, rfl⟩ := Prod.mk.inj (Option.some.inj htable)
        exact ⟨he, List.append_nil ls, hsame⟩
  | n + 1, ls, ls', r, r', hpos => by
      have hloop : ∀ k acc, Sticky (Prog.forWhile MemoryPackReader.failed
          (fun ls => do return ls ++ [← Reader.readVarIntLength]) k acc) := fun k acc =>
        Sticky.basicRules.forWhile
          (fun ls => Sticky.basicRules.readVarIntLength.bind fun _ => .pure _) k acc
      by_cases he : r.error = .none
      · have hnot : r.failed = false := by simp [MemoryPackReader.failed, he]
        have hget : Succeeds B (Prog.get : ReadM MemoryPackReader) r r r := ⟨⟨rfl, rfl⟩, he⟩
        have hbody : ∀ s : MemoryPackReader, Sticky (do
            if s.failed then return ls
            Prog.forWhile MemoryPackReader.failed
              (fun ls => do return ls ++ [← Reader.readVarIntLength]) n
                (← (do return ls ++ [← Reader.readVarIntLength])) : ReadM (List Nat)) := fun s =>
          Prog.Closed.ite (fun _ => Sticky.pure _) fun _ =>
            (Sticky.basicRules.readVarIntLength.bind fun _ => .pure _).bind fun _ => hloop n _
        rw [Prog.forWhile, succeeds_andThen hbody hget, hnot, if_neg (by decide),
          succeeds_bind (hloop n)]
        constructor
        · rintro ⟨ls₁, r₁, hentry, hrest⟩
          obtain ⟨len, r₂, hlen, hpure⟩ := (succeeds_bind fun _ => .pure _).mp hentry
          obtain ⟨-, rfl, rfl⟩ := succeeds_pure.mp hpure
          obtain ⟨-, rfl, bs, hbs, rfl⟩ := succeeds_readVarIntLength.mp hlen
          obtain ⟨-, lengths, after, htable, rfl, rfl⟩ :=
            (succeeds_fill n (Nat.sub_le _ _)).mp hrest
          rw [rest_before (afterLength_suffix hbs)] at htable
          refine ⟨he, entryLength r.rest :: lengths, after, ?_, ?_, rfl⟩
          · simp [lengthTable, hbs, htable]
          · simp
        · rintro ⟨-, lengths, after, htable, rfl, rfl⟩
          simp only [lengthTable, Option.bind_eq_bind, Option.bind_eq_some_iff] at htable
          obtain ⟨bs, hbs, ⟨ls', after'⟩, htable, heq⟩ := htable
          obtain ⟨rfl, rfl⟩ := Prod.mk.inj (Option.some.inj heq)
          have hlen : Succeeds B Reader.readVarIntLength r (entryLength r.rest) (r.before bs) :=
            succeeds_readVarIntLength.mpr ⟨he, rfl, bs, hbs, rfl⟩
          refine ⟨ls ++ [entryLength r.rest], r.before bs,
            (succeeds_andThen (fun _ => .pure _) hlen).mpr (succeeds_pure.mpr ⟨he, rfl, rfl⟩), ?_⟩
          refine (succeeds_fill n (Nat.sub_le _ _)).mpr ⟨he, ls', after', ?_, ?_, rfl⟩
          · rw [rest_before (afterLength_suffix hbs)]
            exact htable
          · simp
      · refine iff_of_false (fun h => he (h.start (hloop (n + 1) ls))) fun h => he h.1

theorem lengthTable_suffix : ∀ {n : Nat} {bs after : List UInt8} {lengths : List Nat},
    lengthTable n bs = some (lengths, after) → after <:+ bs ∧ lengths.length = n
  | 0, bs, after, lengths, h => by
      obtain ⟨rfl, rfl⟩ := Prod.mk.inj (Option.some.inj h)
      exact ⟨List.suffix_rfl, rfl⟩
  | n + 1, bs, after, lengths, h => by
      simp only [lengthTable, Option.bind_eq_bind, Option.bind_eq_some_iff] at h
      obtain ⟨bs', hbs', ⟨ls, after'⟩, htable, heq⟩ := h
      obtain ⟨rfl, rfl⟩ := Prod.mk.inj (Option.some.inj heq)
      obtain ⟨hsuffix, hlen⟩ := lengthTable_suffix htable
      exact ⟨hsuffix.trans (afterLength_suffix hbs'), by rw [List.length_cons, hlen]⟩

theorem succeeds_readObjectHeader {header : ObjectHeader} :
    Succeeds B Reader.readObjectHeader r header r' ↔
      r.error = .none ∧ ∃ b bs, r.rest = b :: bs ∧ r' = r.before bs ∧
        (b = nullObject ∧ header = ⟨0, true⟩ ∨ b ≤ maxMemberCount ∧ header = ⟨b, false⟩) := by
  have hstart : ∀ {b bs}, r.rest = b :: bs → 1 ≤ r.remaining ∧ r.rest.headD 0 = b ∧
      { r with pos := r.pos + 1 } = r.before bs := by
    intro b bs hrest
    have h1 : 1 ≤ r.remaining := by
      rw [← CanRead.length_rest, hrest]
      exact Nat.succ_pos _
    have hbefore := before_drop h1 (pos_lt_of_rest hrest).le
    rw [hrest] at hbefore
    exact ⟨h1, by rw [hrest]; rfl, hbefore.symm⟩
  constructor
  · rintro ⟨h, he⟩
    obtain ⟨l, hrun⟩ := Prog.returns_iff.mp h
    rcases Reader.readObjectHeader_returns hrun with ⟨he, h1, rfl, hbyte⟩ | ⟨-, herr⟩
    · obtain ⟨b, bs, hrest, -⟩ := rest_eq_cons h1
      obtain ⟨-, hhead, hbefore⟩ := hstart hrest
      rw [hhead] at hbyte
      exact ⟨he, b, bs, hrest, hbefore, hbyte⟩
    · exact absurd he herr
  · rintro ⟨he, b, bs, hrest, rfl, hbyte⟩
    obtain ⟨h1, hhead, hbefore⟩ := hstart hrest
    rw [← hbefore]
    rcases hbyte with ⟨hnull, rfl⟩ | ⟨hmax, rfl⟩
    · have hrun := Reader.readObjectHeader_null (B := B) he h1 (hhead.trans hnull)
      exact ⟨Prog.returns_iff.mpr ⟨_, hrun⟩, he⟩
    · have hrun := Reader.readObjectHeader_ok (B := B) he h1 (hhead ▸ hmax)
      rw [hhead] at hrun
      exact ⟨Prog.returns_iff.mpr ⟨_, hrun⟩, he⟩

open VersionTolerantReader in
/-- The constructor succeeds on a null header, and on a header with a table it can read. -/
theorem succeeds_construct {vt : VersionTolerantReader} : Succeeds B construct r vt r' ↔
    r.error = .none ∧
      ((∃ bs, r.rest = nullObject :: bs ∧ vt = { isNull := true } ∧ r' = r.before bs) ∨
        ∃ count bs lengths after, r.rest = count :: bs ∧ count ≤ maxMemberCount ∧
          lengthTable count.toNat bs = some (lengths, after) ∧
          vt = ⟨lengths, count.toNat, 0, r.size - after.length, false⟩ ∧ r' = r.before after) := by
  have hget : ∀ (ls : List Nat) (count : Nat), Sticky (do
      return { lengths := ls, count := count, next := (← Prog.get).pos } :
        ReadM VersionTolerantReader) := fun _ _ => Sticky.basicRules.get.bind fun _ => .pure _
  have hbody : ∀ header : ObjectHeader, Sticky (do
      if header.isNull then return { isNull := true }
      let lengths ← Prog.forWhile MemoryPackReader.failed
        (fun ls => do return ls ++ [← Reader.readVarIntLength]) header.count.toNat []
      return { lengths := lengths, count := header.count.toNat, next := (← Prog.get).pos } :
        ReadM VersionTolerantReader) := fun header =>
    Prog.Closed.ite (fun _ => Sticky.pure _) fun _ =>
      (Sticky.basicRules.forWhile
        (fun ls => Sticky.basicRules.readVarIntLength.bind fun _ => .pure _) _ _).bind
          fun ls => hget ls _
  rw [construct, succeeds_bind hbody]
  constructor
  · rintro ⟨header, r₁, hheader, hrest⟩
    obtain ⟨he, b, bs, hb, rfl, ⟨rfl, rfl⟩ | ⟨hmax, rfl⟩⟩ := succeeds_readObjectHeader.mp hheader
    · obtain ⟨-, rfl, rfl⟩ := succeeds_pure.mp hrest
      exact ⟨he, .inl ⟨bs, hb, rfl, rfl⟩⟩
    · obtain ⟨ls, r₂, hfill, hrest⟩ := (succeeds_bind fun ls => hget ls _).mp hrest
      obtain ⟨-, lengths, after, htable, rfl, rfl⟩ :=
        (succeeds_fill _ (Nat.sub_le _ _)).mp hfill
      obtain ⟨s, r₃, ⟨⟨hs, rfl⟩, -⟩, hrest⟩ := (succeeds_bind fun _ => .pure _).mp hrest
      obtain rfl := Out.ret.inj hs
      obtain ⟨-, rfl, rfl⟩ := succeeds_pure.mp hrest
      rw [rest_before (hb ▸ List.suffix_cons b bs)] at htable
      exact ⟨he, .inr ⟨b, bs, ls, after, hb, hmax, htable, rfl, rfl⟩⟩
  · rintro ⟨he, ⟨bs, hb, rfl, rfl⟩ | ⟨count, bs, ls, after, hb, hmax, htable, rfl, rfl⟩⟩
    · exact ⟨⟨0, true⟩, r.before bs,
        succeeds_readObjectHeader.mpr ⟨he, _, bs, hb, rfl, .inl ⟨rfl, rfl⟩⟩,
        succeeds_pure.mpr ⟨he, rfl, rfl⟩⟩
    · have hbs : (r.before bs).rest = bs := rest_before (hb ▸ List.suffix_cons count bs)
      have hfill : Succeeds B (Prog.forWhile MemoryPackReader.failed
          (fun ls => do return ls ++ [← Reader.readVarIntLength]) count.toNat []) (r.before bs) ls
          ((r.before bs).before after) :=
        (succeeds_fill count.toNat (Nat.sub_le _ _)).mpr
          ⟨he, ls, after, by rw [hbs]; exact htable, rfl, rfl⟩
      refine ⟨⟨count, false⟩, r.before bs,
        succeeds_readObjectHeader.mpr ⟨he, _, bs, hb, rfl, .inr ⟨hmax, rfl⟩⟩, ?_⟩
      refine (succeeds_andThen (fun ls => hget ls _) hfill).mpr ?_
      exact ⟨⟨rfl, rfl⟩, he⟩

end Statements

/-! ## One call -/

namespace VersionTolerantReader

variable {B : Build} {S : Schema} {r r' : MemoryPackReader} {vt vt' vt₀ : VersionTolerantReader}
  {base : Nat}

/-- The end of the next member as the code computes it. -/
def stop (vt : VersionTolerantReader) (B : Build) : Nat :=
  (vt.next + vt.lengths.getD vt.index 0) % B.sizeMod

/-- The table behind the next member. -/
def passed (vt : VersionTolerantReader) (B : Build) : VersionTolerantReader :=
  { vt with index := vt.index + 1, next := vt.stop B }

theorem succeeds_skipMember (h : ¬ (vt.isNull = true ∨ vt.index ≥ vt.count)) {x : Bool} :
    Succeeds B vt.skipMember r (x, vt') r' ↔
      r.error = .none ∧ vt.stop B ≤ r.size ∧ x = true ∧ vt' = vt.passed B ∧
        r' = { r with pos := vt.stop B } := by
  have hrun : Succeeds B vt.skipMember r (x, vt') r' ↔ Succeeds B (do
      Reader.seek (vt.stop B)
      return (true, vt.passed B) : ReadM (Bool × VersionTolerantReader)) r (x, vt') r' := by
    rw [Succeeds, Prog.Returns, skipMember_eq h r]
    rfl
  rw [hrun, succeeds_bind fun _ => .pure _]
  constructor
  · rintro ⟨u, r₁, hseek, hpure⟩
    obtain ⟨he, hle, rfl⟩ := succeeds_seek.mp hseek
    obtain ⟨-, hx, rfl⟩ := succeeds_pure.mp hpure
    obtain ⟨rfl, rfl⟩ := Prod.mk.inj hx
    exact ⟨he, hle, rfl, rfl, rfl⟩
  · rintro ⟨he, hle, rfl, rfl, rfl⟩
    exact ⟨(), _, succeeds_seek.mpr ⟨he, hle, rfl⟩, succeeds_pure.mpr ⟨he, rfl, rfl⟩⟩

/-- Wherever the decoder stopped, the call ends with the seek to the end of the member. -/
theorem readMember_succeeds (h : ¬ (vt.isNull = true ∨ vt.index ≥ vt.count))
    {read : Val → ReadM Val} (hread : ∀ v, Sticky (read v)) {out v : Val} {x : Bool}
    (hs : Succeeds B (readMember read vt out) r (x, v, vt') r') :
    vt' = vt.passed B ∧ vt.stop B ≤ r.size ∧ r'.pos = vt.stop B ∧ r'.data = r.data := by
  have hdata := hs.data (Sticky.basicRules.readMember hread vt out)
  obtain ⟨⟨hout, hst⟩, he⟩ := hs
  rw [readMember_eq h r] at hout hst
  have hrun : Succeeds B (memberTo read vt out (vt.stop B)) r (x, v, vt') r' := ⟨⟨hout, hst⟩, he⟩
  have hseek : ∀ pos, Sticky (Reader.seek pos) := Sticky.basicRules.seek
  have hrest : ∀ w : Val, Sticky (do
      Reader.seek (vt.stop B)
      return (true, w, vt.passed B) : ReadM (Bool × Val × VersionTolerantReader)) := fun w =>
    (hseek _).bind fun _ => .pure _
  have hmember : ∀ failed : Bool, Sticky (do
      if failed then return (false, out, { vt with index := vt.index + 1 })
      let w ← read out
      Reader.seek (vt.stop B)
      return (true, w, vt.passed B) : ReadM (Bool × Val × VersionTolerantReader)) := fun failed =>
    Prog.Closed.ite (fun _ => Sticky.pure _) fun _ => (hread out).bind hrest
  obtain ⟨u, r₁, hstart, hrun⟩ := (succeeds_bind fun _ =>
    Sticky.basicRules.failed.bind hmember).mp hrun
  obtain ⟨he₀, hle, rfl⟩ := succeeds_seek.mp hstart
  obtain ⟨b, r₂, ⟨⟨hb, rfl⟩, -⟩, hrun⟩ := (succeeds_bind hmember).mp hrun
  have hnot : b = false := by
    rw [← Out.ret.inj hb]
    simp [MemoryPackReader.failed, he₀]
  rw [hnot, if_neg (by decide)] at hrun
  obtain ⟨w, r₃, hw, hrun⟩ := (succeeds_bind hrest).mp hrun
  obtain ⟨u', r₄, hend, hpure⟩ := (succeeds_bind fun _ => .pure _).mp hrun
  obtain ⟨-, hstop, rfl⟩ := succeeds_seek.mp hend
  obtain ⟨-, hx, rfl⟩ := succeeds_pure.mp hpure
  have hsize : r₃.size = r.size := congrArg List.length hdata
  exact ⟨(Prod.mk.inj (Prod.mk.inj hx).2).2, hsize ▸ hstop, rfl, hdata⟩

/-! ## Runs of calls -/

theorem sticky_apply (S : Schema) (vt : VersionTolerantReader) (c : TableCall) :
    Sticky (vt.apply S c) := by
  cases c with
  | read t out =>
      exact (Sticky.basicRules.readMember (fun v =>
        Sticky.basicRules.get.bind fun s => Sticky.readTy S (s.size + 1) t v) vt out).bind
          fun _ => .pure _
  | skip => exact (Sticky.basicRules.skipMember vt).bind fun _ => .pure _
  | finish => exact Sticky.basicRules.finish vt

theorem sticky_applyAll (S : Schema) : ∀ (cs : List TableCall) (vt : VersionTolerantReader),
    Sticky (applyAll S cs vt)
  | [], _ => .pure _
  | c :: cs, vt => (sticky_apply S vt c).bind (sticky_applyAll S cs)

/-- The cursor and the table agree on the exact offset, for an object whose first body is
at `base` in an input of `size` bytes. -/
structure OnTable (vt₀ : VersionTolerantReader) (base size : Nat) (vt : VersionTolerantReader)
    (r : MemoryPackReader) : Prop where
  table : Over vt₀ vt
  next : vt₀.isNull = false → vt.next = vt.exactOffset base
  pos : r.pos = vt.exactOffset base
  size_eq : r.size = size
  pos_le : r.pos ≤ size

/-- The ends of the members of `vt₀` are numbers below `m`, as long as the members begin
inside the input. -/
def FitsTable (vt₀ : VersionTolerantReader) (base size m : Nat) : Prop :=
  ∀ k < vt₀.lengths.length, base + (vt₀.lengths.take k).sum ≤ size →
    base + (vt₀.lengths.take (k + 1)).sum < m

theorem sum_take_succ (ls : List Nat) (k : Nat) :
    (ls.take (k + 1)).sum = (ls.take k).sum + ls.getD k 0 := by
  rw [List.take_add_one, List.sum_append, List.getD_eq_getElem?_getD]
  cases ls[k]? <;> rfl

theorem exactOffset_passed (hnext : vt.next = vt.exactOffset base) :
    (vt.passed B).exactOffset base = vt.next + vt.lengths.getD vt.index 0 := by
  show base + (vt.lengths.take (vt.index + 1)).sum = _
  rw [sum_take_succ, hnext, exactOffset, Nat.add_assoc]

/-- Passing a member whose end the code accepted. -/
theorem OnTable.pass {size : Nat} (h : OnTable vt₀ base size vt r)
    (hopen : ¬ (vt.isNull = true ∨ vt.index ≥ vt.count))
    (hfit : (vt.passed B).exactOffset base < B.sizeMod) (hstop : vt.stop B ≤ size)
    (hpos : r'.pos = vt.stop B) (hsize : r'.size = size) :
    OnTable vt₀ base size (vt.passed B) r' ∧ r.pos ≤ r'.pos := by
  have hlt : vt.index < vt.count := Nat.not_le.mp fun hge => hopen (.inr hge)
  have hnn : vt₀.isNull = false := by
    rw [← h.table.isNull]
    exact Bool.eq_false_iff.mpr fun hn => hopen (.inl hn)
  have hexact := exactOffset_passed (B := B) (h.next hnn)
  have hstop_eq : vt.stop B = (vt.passed B).exactOffset base := by
    rw [hexact] at hfit ⊢
    exact Nat.mod_eq_of_lt hfit
  refine ⟨⟨⟨h.table.lengths, h.table.count, h.table.isNull, hlt⟩, fun _ => hstop_eq, ?_, hsize, ?_⟩, ?_⟩
  · rw [hpos, hstop_eq]
  · rwa [hpos]
  · rw [hpos, hstop_eq, hexact, h.pos, h.next hnn]
    exact Nat.le_add_right _ _

section Run

variable {size : Nat} (hcount : vt₀.lengths.length = vt₀.count)
  (hfits : FitsTable vt₀ base size B.sizeMod)
include hcount hfits

/-- The next member begins at the cursor, so its end is a `size_t`. -/
theorem OnTable.fit (h : OnTable vt₀ base size vt r)
    (hopen : ¬ (vt.isNull = true ∨ vt.index ≥ vt.count)) :
    (vt.passed B).exactOffset base < B.sizeMod := by
  have hlt : vt.index < vt.count := Nat.not_le.mp fun hge => hopen (.inr hge)
  have hle := h.pos_le
  rw [h.pos, exactOffset, h.table.lengths] at hle
  have hfit := hfits vt.index (by rw [hcount, ← h.table.count]; exact hlt) hle
  rw [← h.table.lengths] at hfit
  exact hfit

theorem OnTable.skip (h : OnTable vt₀ base size vt r) {x : Bool}
    (hs : Succeeds B vt.skipMember r (x, vt') r') :
    OnTable vt₀ base size vt' r' ∧ r.pos ≤ r'.pos := by
  by_cases hopen : vt.isNull = true ∨ vt.index ≥ vt.count
  · rw [skipMember, if_pos hopen, succeeds_pure] at hs
    obtain ⟨-, hx, rfl⟩ := hs
    obtain rfl := (Prod.mk.inj hx).2
    exact ⟨h, Nat.le_refl _⟩
  · obtain ⟨-, hstop, -, rfl, rfl⟩ := (succeeds_skipMember hopen).mp hs
    exact h.pass hopen (h.fit hcount hfits hopen) (h.size_eq ▸ hstop) rfl h.size_eq

/-- The loop of `Finish`, by induction on the members to go. -/
theorem OnTable.skipRest : ∀ {left : Nat} {vt vt' : VersionTolerantReader}
    {r r' : MemoryPackReader}, OnTable vt₀ base size vt r →
    Succeeds B (skipRest left vt) r vt' r' →
      OnTable vt₀ base size vt' r' ∧ r.pos ≤ r'.pos
  | 0, vt, vt', r, r', h, hs => by
      obtain ⟨-, rfl, rfl⟩ := succeeds_pure.mp hs
      exact ⟨h, Nat.le_refl _⟩
  | left + 1, vt, vt', r, r', h, hs => by
      obtain ⟨⟨x, vt₁⟩, r₁, hskip, hrest⟩ :=
        (succeeds_bind fun x : Bool × VersionTolerantReader =>
          Sticky.basicRules.skipRest left x.2).mp hs
      obtain ⟨h₁, hle₁⟩ := h.skip hcount hfits hskip
      obtain ⟨h₂, hle₂⟩ := OnTable.skipRest h₁ hrest
      exact ⟨h₂, Nat.le_trans hle₁ hle₂⟩

theorem OnTable.finish (h : OnTable vt₀ base size vt r) (hs : Succeeds B vt.finish r vt' r') :
    OnTable vt₀ base size vt' r' ∧ r.pos ≤ r'.pos := by
  have hend : ∀ vt₁ : VersionTolerantReader, Sticky (do
      if !vt₁.isNull then Reader.seek vt₁.next
      return vt₁ : ReadM VersionTolerantReader) := fun vt₁ =>
    Prog.Closed.ite (fun _ => (Sticky.basicRules.seek _).bind fun _ => .pure _) fun _ => .pure _
  obtain ⟨vt₁, r₁, hskip, hrest⟩ := (succeeds_bind hend).mp hs
  obtain ⟨h₁, hle⟩ := h.skipRest hcount hfits hskip
  cases hn : vt₁.isNull with
  | true =>
      rw [hn, Bool.not_true, if_neg (by decide)] at hrest
      obtain ⟨-, rfl, rfl⟩ := succeeds_pure.mp hrest
      exact ⟨h₁, hle⟩
  | false =>
      rw [hn, Bool.not_false, if_pos rfl] at hrest
      obtain ⟨u, r₂, hseek, hpure⟩ := (succeeds_bind fun _ => .pure _).mp hrest
      obtain ⟨-, -, rfl⟩ := succeeds_seek.mp hseek
      obtain ⟨-, rfl, rfl⟩ := succeeds_pure.mp hpure
      -- the seek goes to where the cursor already is
      have hsame : vt'.next = r₁.pos := by
        rw [h₁.pos]
        exact h₁.next (h₁.table.isNull ▸ hn)
      refine ⟨⟨h₁.table, h₁.next, ?_, h₁.size_eq, ?_⟩, ?_⟩
      · exact hsame.trans h₁.pos
      · exact hsame ▸ h₁.pos_le
      · exact hsame ▸ hle

theorem OnTable.apply (h : OnTable vt₀ base size vt r) (c : TableCall)
    (hs : Succeeds B (vt.apply S c) r vt' r') :
    OnTable vt₀ base size vt' r' ∧ r.pos ≤ r'.pos := by
  cases c with
  | read t out =>
      obtain ⟨⟨x, v, vt₁⟩, r₁, hread, hpure⟩ := (succeeds_bind fun _ => .pure _).mp hs
      obtain ⟨-, rfl, rfl⟩ := succeeds_pure.mp hpure
      by_cases hopen : vt.isNull = true ∨ vt.index ≥ vt.count
      · rw [readMember, if_pos hopen, succeeds_pure] at hread
        obtain ⟨-, hx, rfl⟩ := hread
        obtain rfl : vt' = vt := (Prod.mk.inj (Prod.mk.inj hx).2).2
        exact ⟨h, Nat.le_refl _⟩
      · have hsticky : ∀ v, Sticky (Reader.read S t v) := fun v =>
          Sticky.basicRules.get.bind fun s => Sticky.readTy S (s.size + 1) t v
        obtain ⟨rfl, hstop, hpos, hdata⟩ := readMember_succeeds hopen hsticky hread
        have hsize : r'.size = size := by rw [← h.size_eq]; exact congrArg List.length hdata
        exact h.pass hopen (h.fit hcount hfits hopen) (h.size_eq ▸ hstop) hpos hsize
  | skip =>
      obtain ⟨⟨x, vt₁⟩, r₁, hskip, hpure⟩ := (succeeds_bind fun _ => .pure _).mp hs
      obtain ⟨-, rfl, rfl⟩ := succeeds_pure.mp hpure
      exact h.skip hcount hfits hskip
  | finish => exact h.finish hcount hfits hs

theorem OnTable.applyAll : ∀ {cs : List TableCall} {vt vt' : VersionTolerantReader}
    {r r' : MemoryPackReader}, OnTable vt₀ base size vt r →
    Succeeds B (applyAll S cs vt) r vt' r' → OnTable vt₀ base size vt' r'
  | [], vt, vt', r, r', h, hs => by
      obtain ⟨-, rfl, rfl⟩ := succeeds_pure.mp hs
      exact h
  | c :: cs, vt, vt', r, r', h, hs => by
      obtain ⟨vt₁, r₁, hc, hrest⟩ := (succeeds_bind (sticky_applyAll S cs)).mp hs
      exact OnTable.applyAll (h.apply hcount hfits c hc).1 hrest

end Run

/-- Skipping leads to every member that begins inside the input. -/
theorem OnTable.skips {size : Nat} (hsize : size < B.sizeMod) (hnull : vt₀.isNull = false) :
    ∀ (j : Nat) {vt : VersionTolerantReader} {r : MemoryPackReader}, OnTable vt₀ base size vt r →
    r.error = .none → vt.index + j ≤ vt₀.count →
    base + (vt₀.lengths.take (vt.index + j)).sum ≤ size →
    ∃ vt' r', Succeeds B (VersionTolerantReader.applyAll S (List.replicate j .skip) vt) r vt' r' ∧
      OnTable vt₀ base size vt' r' ∧ vt'.index = vt.index + j
  | 0, vt, r, h, he, _, _ => ⟨vt, r, succeeds_pure.mpr ⟨he, rfl, rfl⟩, h, rfl⟩
  | j + 1, vt, r, h, he, hj, hle => by
      have hopen : ¬ (vt.isNull = true ∨ vt.index ≥ vt.count) := by
        rw [h.table.isNull, hnull, h.table.count]
        simp
        omega
      have hprefix : (vt₀.lengths.take (vt.index + 1)).sum ≤
          (vt₀.lengths.take (vt.index + (j + 1))).sum :=
        (List.take_sublist_take_left (by omega)).sum_le_sum fun _ _ => Nat.zero_le _
      have hexact : (vt.passed B).exactOffset base ≤ size := by
        show base + (vt.lengths.take (vt.index + 1)).sum ≤ size
        rw [h.table.lengths]
        omega
      have hstop : vt.stop B = (vt.passed B).exactOffset base := by
        rw [exactOffset_passed (h.next hnull)] at hexact ⊢
        exact Nat.mod_eq_of_lt (by omega)
      have hskip : Succeeds B (vt.apply S .skip) r (vt.passed B) { r with pos := vt.stop B } :=
        (succeeds_andThen (fun _ => .pure _) ((succeeds_skipMember hopen).mpr
          ⟨he, by rw [h.size_eq, hstop]; exact hexact, rfl, rfl, rfl⟩)).mpr
            (succeeds_pure.mpr ⟨he, rfl, rfl⟩)
      have hsize' : ({ r with pos := vt.stop B } : MemoryPackReader).size = size := h.size_eq
      obtain ⟨hpass, -⟩ := h.pass hopen (show (vt.passed B).exactOffset base < B.sizeMod by omega)
        (by omega) rfl hsize'
      have hindex : (vt.passed B).index + j = vt.index + (j + 1) := by
        show vt.index + 1 + j = _
        omega
      obtain ⟨vt', r', hrun, h', hk⟩ := OnTable.skips hsize hnull j hpass he (by omega)
        (by rw [hindex]; exact hle)
      exact ⟨vt', r', (succeeds_andThen (sticky_applyAll S _) hskip).mpr hrun, h', by omega⟩

/-- What the constructor leaves: the cursor at the first body, and a table that is as long
as its count. -/
theorem OnTable.construct (h : Succeeds B construct r vt₀ r') :
    vt₀.lengths.length = vt₀.count ∧ OnTable vt₀ r'.pos r.size vt₀ r' := by
  obtain ⟨he, ⟨bs, hb, rfl, rfl⟩ | ⟨count, bs, ls, after, hb, hmax, htable, rfl, rfl⟩⟩ :=
    succeeds_construct.mp h
  · exact ⟨rfl, ⟨rfl, rfl, rfl, Nat.le_refl _⟩, (nomatch ·), rfl, rfl, Nat.sub_le _ _⟩
  · exact ⟨(lengthTable_suffix htable).2, ⟨rfl, rfl, rfl, Nat.zero_le _⟩, fun _ => rfl, rfl, rfl,
      Nat.sub_le _ _⟩

/-- The condition on the input is the condition on the table the constructor makes of it. -/
theorem fitsTable_of_endsFit (h : Succeeds B construct r vt₀ r') (hfit : EndsFit B r) :
    FitsTable vt₀ r'.pos r.size B.sizeMod := by
  obtain ⟨he, ⟨bs, hb, rfl, rfl⟩ | ⟨count, bs, ls, after, hb, hmax, htable, rfl, rfl⟩⟩ :=
    succeeds_construct.mp h
  · intro k hk
    cases hk
  · exact hfit he count bs ls after hb hmax htable

end VersionTolerantReader

open VersionTolerantReader in
/-- For `size_t` of either width and every input: after any `ReadMember`, `SkipMember` and
`Finish` calls that do not fail the cursor is where the recorded lengths add up to,
exactly when no member that begins inside the input has an end that is no `size_t`. An
input that leaves 2^32 below the largest `size_t` has no such member. -/
theorem cursor_exact_iff (S : Schema) (B : Build) (r : MemoryPackReader)
    (hsize : r.size < B.sizeMod) :
    (CursorExact S B r ↔ EndsFit B r) ∧ (r.size + 2 ^ 32 ≤ B.sizeMod → CursorExact S B r) := by
  have hexact : EndsFit B r → CursorExact S B r := by
    intro hfit vt₀ r₁ hconstruct cs vt r₂ hrun
    obtain ⟨hcount, hstart⟩ := OnTable.construct hconstruct
    have hfits := fitsTable_of_endsFit hconstruct hfit
    have hreached := hstart.applyAll hcount hfits hrun
    refine ⟨hreached.pos, ?_⟩
    intro c vt' r' hcall
    obtain ⟨hnext, hle⟩ := hreached.apply hcount hfits c hcall
    refine ⟨hle, ?_⟩
    rw [← hnext.pos, hreached.size_eq]
    exact hnext.pos_le
  -- a header and a table that can be read lead to a reader in front of the first body
  have hconstruct : ∀ {count bs ls after}, r.error = .none → r.rest = count :: bs →
      count ≤ maxMemberCount → lengthTable count.toNat bs = some (ls, after) →
      Succeeds B construct r ⟨ls, count.toNat, 0, r.size - after.length, false⟩
        (r.before after) := fun he hb hmax htable =>
    succeeds_construct.mpr ⟨he, .inr ⟨_, _, _, _, hb, hmax, htable, rfl, rfl⟩⟩
  have hopened : ∀ {count bs ls after}, r.error = .none → r.rest = count :: bs →
      count ≤ maxMemberCount → lengthTable count.toNat bs = some (ls, after) →
      OnTable ⟨ls, count.toNat, 0, r.size - after.length, false⟩ (r.before after).pos r.size
        ⟨ls, count.toNat, 0, r.size - after.length, false⟩ (r.before after) ∧
      ls.length = count.toNat ∧ ∀ k, ls.getD k 0 < 2 ^ 32 := by
    intro count bs ls after he hb hmax htable
    have hrun := hconstruct he hb hmax htable
    obtain ⟨hcount, hstart⟩ := OnTable.construct hrun
    exact ⟨hstart, hcount, getD_lt (construct_lengths_lt hrun.1)⟩
  refine ⟨⟨?_, hexact⟩, ?_⟩
  · intro hall he count bs ls after hb hmax htable k hk hle
    refine Nat.not_le.mp fun hwraps => ?_
    obtain ⟨hstart, hcount, hlen⟩ := hopened he hb hmax htable
    obtain ⟨vt, r₂, hrun, hreached, hindex⟩ := hstart.skips (S := S) hsize rfl k he
      (by rw [Nat.zero_add]; exact hcount ▸ hk.le) (by rw [Nat.zero_add]; exact hle)
    rw [Nat.zero_add] at hindex
    have hopen : ¬ (vt.isNull = true ∨ vt.index ≥ vt.count) := by
      rw [hreached.table.isNull, hreached.table.count, hindex]
      rintro (hn | hge)
      · cases hn
      · exact absurd (hcount ▸ hk) (Nat.not_lt.mpr hge)
    have hpassed := exactOffset_passed (B := B) (hreached.next rfl)
    -- the sum that wraps lands in front of the member
    have hend : r.size - after.length + (ls.take (k + 1)).sum =
        (vt.passed B).exactOffset (r.before after).pos := by
      show _ = _ + (vt.lengths.take (vt.index + 1)).sum
      rw [hreached.table.lengths, hindex]
      rfl
    have hnext : vt.next ≤ r.size := by
      rw [hreached.next rfl, ← hreached.pos]
      exact hreached.pos_le
    have hlen' : vt.lengths.getD vt.index 0 < 2 ^ 32 := by
      rw [hreached.table.lengths]
      exact hlen vt.index
    have hmod := B.two_pow_le_sizeMod
    have hstop : vt.stop B ≤ r₂.size := by
      have hwrap : (vt.next + vt.lengths.getD vt.index 0) % B.sizeMod =
          vt.next + vt.lengths.getD vt.index 0 - B.sizeMod := by
        rw [Nat.mod_eq_sub_mod (by omega), Nat.mod_eq_of_lt (by omega)]
      rw [hreached.size_eq, stop, hwrap]
      omega
    have hskip : Succeeds B (vt.apply S .skip) r₂ (vt.passed B) { r₂ with pos := vt.stop B } :=
      (succeeds_andThen (fun _ => .pure _) ((succeeds_skipMember hopen).mpr
        ⟨hrun.2, hstop, rfl, rfl, rfl⟩)).mpr (succeeds_pure.mpr ⟨hrun.2, rfl, rfl⟩)
    obtain ⟨-, hnext⟩ := hall _ _ (hconstruct he hb hmax htable) _ _ _ hrun
    have hinside := (hnext .skip _ _ hskip).2
    rw [hreached.size_eq] at hinside
    omega
  · intro hroom
    refine hexact ?_
    intro he count bs ls after hb hmax htable k hk hle
    obtain ⟨-, -, hlen⟩ := hopened he hb hmax htable
    have hk := hlen k
    rw [sum_take_succ]
    omega

/-- One member of two bytes, in a 32-bit build. -/
theorem cursor_exact_iff_short : ([1, 2, 7, 7] : List UInt8).length < 2 ^ 32 ∧
    (CursorExact Schema.plain ⟨false, .little, .w32, 0⟩ { data := [1, 2, 7, 7] } ↔
      EndsFit ⟨false, .little, .w32, 0⟩ { data := [1, 2, 7, 7] }) :=
  ⟨by decide, (cursor_exact_iff Schema.plain ⟨false, .little, .w32, 0⟩ { data := [1, 2, 7, 7] }
    (by decide)).1⟩

/-- One member with a recorded length of 2^32 - 1. -/
def wrappingTable : MemoryPackReader := { data := [1, 0x82, 255, 255, 255, 255] }

open VersionTolerantReader in
/-- In a 32-bit build the member is skipped without an error, to the byte in front of it. -/
theorem wrapping_table_moves_back :
    ¬ CursorExact Schema.plain ⟨false, .little, .w32, 0⟩ wrappingTable := by
  intro hexact
  have hconstruct : Succeeds ⟨false, .little, .w32, 0⟩ construct wrappingTable
      ⟨[4294967295], 1, 0, 6, false⟩ { wrappingTable with pos := 6 } := ⟨⟨rfl, rfl⟩, rfl⟩
  have hskip : Succeeds ⟨false, .little, .w32, 0⟩
      (VersionTolerantReader.apply Schema.plain ⟨[4294967295], 1, 0, 6, false⟩ .skip)
      { wrappingTable with pos := 6 } ⟨[4294967295], 1, 1, 5, false⟩
      { wrappingTable with pos := 5 } := ⟨⟨rfl, rfl⟩, rfl⟩
  obtain ⟨-, hnext⟩ := hexact _ _ hconstruct [] _ _ (succeeds_pure.mpr ⟨rfl, rfl, rfl⟩)
  exact absurd (hnext .skip _ _ hskip).1 (by decide)

end MemoryPack
