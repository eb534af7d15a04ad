import MemoryPack.Reader.Elements
import MemoryPack.Reader.Tracking
import MemoryPack.Wire.LengthTable

/-!
# The bytes a `VersionTolerant` member is decoded from

`ReadMember` runs `Read<T>` on the reader of the whole input and moves to the recorded
end of the member afterwards. Nothing keeps the decoder inside the member. A call that
succeeds is independent of the bytes around its member exactly when the member's own
bytes already hold a `T`: when `Read<T>` succeeds on an input that stops where the
member stops.

The proof follows one decode on two inputs. Nested tables move the cursor backwards, so
the relation between the readers is carried by the table as well (`Tracked`).
-/

namespace MemoryPack

open Effect

/-! ## Lengths of the table -/

section Lengths

variable {B : Build} {r r' : MemoryPackReader}

theorem readRaw_lt {w n : Nat} (h : Prog.Returns (Reader.readRaw w) B r n r') : n < 256 ^ w := by
  obtain ⟨l, hrun⟩ := Prog.returns_iff.mp h
  rcases Reader.readRaw_returns hrun with ⟨-, hw, rfl, -⟩ | ⟨rfl, -⟩
  · have hlt := LittleEndian.leNat_lt (r.rest.take w)
    rw [List.length_take, CanRead.length_rest, Nat.min_eq_left hw] at hlt
    exact hlt
  · exact Nat.pow_pos (by decide)

theorem readVarIntLength_lt {n : Nat} (h : Prog.Returns Reader.readVarIntLength B r n r') :
    n < 2 ^ 32 := by
  obtain ⟨b, r₁, -, h⟩ := Prog.returns_bind.mp h
  by_cases hsingle : b ≤ varintMaxSingle
  · rw [if_pos hsingle] at h
    obtain rfl := Out.ret.inj h.1
    exact Nat.lt_trans b.toNat_lt (by decide)
  rw [if_neg hsingle] at h
  by_cases h16 : b = varintUint16Tag
  · rw [if_pos h16] at h
    exact Nat.lt_trans (readRaw_lt h) (by decide)
  rw [if_neg h16] at h
  by_cases h32 : b = varintUint32Tag
  · rw [if_pos h32] at h
    exact readRaw_lt h
  rw [if_neg h32] at h
  obtain ⟨u, r₂, -, h⟩ := Prog.returns_bind.mp h
  obtain rfl := Out.ret.inj h.1
  exact Nat.two_pow_pos 32

/-- By induction on the entries to go. -/
theorem fill_lt : ∀ (n : Nat) {ls ls' : List Nat} {r r' : MemoryPackReader},
    (∀ len ∈ ls, len < 2 ^ 32) →
    Prog.Returns (Prog.forWhile MemoryPackReader.failed
      (fun ls => do return ls ++ [← Reader.readVarIntLength]) n ls) B r ls' r' →
    ∀ len ∈ ls', len < 2 ^ 32
  | 0, ls, ls', r, r', hls, h => by
      obtain rfl := Out.ret.inj h.1
      exact hls
  | n + 1, ls, ls', r, r', hls, h => by
      rw [Prog.forWhile] at h
      obtain ⟨s, r₁, -, h⟩ := Prog.returns_bind.mp h
      cases hfailed : s.failed with
      | true =>
          rw [hfailed, if_pos rfl] at h
          obtain rfl := Out.ret.inj h.1
          exact hls
      | false =>
          rw [hfailed, if_neg (by decide)] at h
          obtain ⟨ls₁, r₂, hbody, hloop⟩ := Prog.returns_bind.mp h
          obtain ⟨len, r₃, hlen, hls₁, -⟩ := Prog.returns_bind.mp hbody
          obtain rfl := Out.ret.inj hls₁
          refine fill_lt n ?_ hloop
          intro k hk
          rcases List.mem_append.mp hk with hk | hk
          · exact hls k hk
          · rw [List.mem_singleton.mp hk]
            exact readVarIntLength_lt hlen

theorem construct_lengths_lt {vt : VersionTolerantReader}
    (h : Prog.Returns VersionTolerantReader.construct B r vt r') :
    ∀ len ∈ vt.lengths, len < 2 ^ 32 := by
  obtain ⟨header, r₁, -, ⟨-, rfl⟩ | ⟨-, ls, rfl, hloop⟩⟩ :=
    VersionTolerantReader.construct_returns h
  · intro len hlen
    cases hlen
  · exact fill_lt _ (fun _ hlen => absurd hlen List.not_mem_nil) hloop

theorem getD_lt {ls : List Nat} (h : ∀ len ∈ ls, len < 2 ^ 32) (k : Nat) :
    ls.getD k 0 < 2 ^ 32 := by
  rw [List.getD_eq_getElem?_getD]
  cases hk : ls[k]? with
  | none => exact Nat.two_pow_pos 32
  | some len => exact h len (List.mem_of_getElem? hk)

end Lengths

/-! ## Tables on two inputs -/

section Table

variable {B : Build} {lo : Nat} {x : List UInt8}

/-- The table stands at an offset both inputs share, with `uint32_t` lengths. -/
structure TableAt (lo : Nat) (x : List UInt8) (vt : VersionTolerantReader) : Prop where
  lo_le : lo ≤ vt.next
  le_length : vt.next ≤ x.length
  lengths_lt : ∀ len ∈ vt.lengths, len < 2 ^ 32

theorem TableAt.length_lt {vt : VersionTolerantReader} (h : TableAt lo x vt) :
    vt.lengths.getD vt.index 0 < 2 ^ 32 := getD_lt h.lengths_lt vt.index

/-- Where the next member ends; `start + lengths_[index_]` does not wrap. -/
theorem TableAt.stop_eq (hmod : x.length + 2 ^ 32 ≤ B.sizeMod) {vt : VersionTolerantReader}
    (h : TableAt lo x vt) : (vt.next + vt.lengths.getD vt.index 0) % B.sizeMod =
      vt.next + vt.lengths.getD vt.index 0 := by
  have hlen := h.length_lt
  have hle := h.le_length
  exact Nat.mod_eq_of_lt (by omega)

theorem TableAt.advance {vt : VersionTolerantReader} (h : TableAt lo x vt) {stop : Nat}
    (hle : vt.next ≤ stop) (hstop : stop ≤ x.length) :
    TableAt lo x { vt with index := vt.index + 1, next := stop } :=
  ⟨Nat.le_trans h.lo_le hle, hstop, h.lengths_lt⟩

end Table

namespace VersionTolerantReader

variable {B : Build}

/-- `ReadMember` past its checks, with the end of the member computed. -/
def memberTo (read : Val → ReadM Val) (vt : VersionTolerantReader) (out : Val) (stop : Nat) :
    ReadM (Bool × Val × VersionTolerantReader) := do
  Reader.seek vt.next
  if ← Reader.failed then return (false, out, { vt with index := vt.index + 1 })
  let v ← read out
  Reader.seek stop
  return (true, v, { vt with index := vt.index + 1, next := stop })

theorem readMember_eq {read : Val → ReadM Val} {vt : VersionTolerantReader} {out : Val}
    (h : ¬ (vt.isNull = true ∨ vt.index ≥ vt.count)) (r : MemoryPackReader) :
    readMember read vt out B r = (memberTo read vt out
      ((vt.next + vt.lengths.getD vt.index 0) % B.sizeMod) B r).after
        [.tableIndex vt.index vt.lengths.length] := by
  rw [readMember, if_neg h]
  rfl

theorem skipMember_eq {vt : VersionTolerantReader}
    (h : ¬ (vt.isNull = true ∨ vt.index ≥ vt.count)) (r : MemoryPackReader) :
    skipMember vt B r = ((do
      Reader.seek ((vt.next + vt.lengths.getD vt.index 0) % B.sizeMod)
      return (true, { vt with index := vt.index + 1,
                              next := (vt.next + vt.lengths.getD vt.index 0) % B.sizeMod }) :
        ReadM (Bool × VersionTolerantReader)) B r).after
          [.tableIndex vt.index vt.lengths.length] := by
  rw [skipMember, if_neg h]
  rfl

end VersionTolerantReader

/-- In the exception build: where `m` returns from a reader, it returns the same from
every reader near it, and both go on with a table that stands at an offset they share. -/
def Tracked (B : Build) (lo : Nat) (x y : List UInt8) {α : Type}
    (table : α → VersionTolerantReader) (m : ReadM α) : Prop :=
  ∀ ⦃r r' a r₁⦄, Near lo x y r r' → r.error = .none → Prog.Returns m B r a r₁ →
    r₁.error = .none ∧ TableAt lo x (table a) ∧ ∃ r₁', Prog.Returns m B r' a r₁' ∧
      Near lo x y r₁ r₁'

namespace Tracked

open VersionTolerantReader

variable {B : Build} {lo : Nat} {x y : List UInt8} {α β : Type}
  {table : α → VersionTolerantReader} {table' : β → VersionTolerantReader}
  {vt : VersionTolerantReader}

theorem pure {a : α} (h : TableAt lo x (table a)) :
    Tracked B lo x y table (Pure.pure a : ReadM α) := by
  intro r r' a' r₁ hr he hres
  obtain ⟨ha, rfl⟩ := hres
  obtain rfl := Out.ret.inj ha
  exact ⟨he, h, r', Prog.returns_pure, hr⟩

theorem bind {m : ReadM α} {f : α → ReadM β} (hm : Tracked B lo x y table m)
    (hf : ∀ a, TableAt lo x (table a) → Tracked B lo x y table' (f a)) :
    Tracked B lo x y table' (m >>= f) := by
  intro r r' b r₂ hr he hres
  obtain ⟨a, r₁, h₁, h₂⟩ := Prog.returns_bind.mp hres
  obtain ⟨he₁, ha, r₁', h₁', hr₁⟩ := hm hr he h₁
  obtain ⟨he₂, hb, r₂', h₂', hr₂⟩ := hf a ha hr₁ he₁ h₂
  exact ⟨he₂, hb, r₂', h₁'.bind h₂', hr₂⟩

/-- The table does not take part. -/
theorem andThen {m : ReadM α} {f : α → ReadM β} (hm : Follows B (Near lo x y) 0 m)
    (hf : ∀ a, Tracked B lo x y table' (f a)) : Tracked B lo x y table' (m >>= f) := by
  intro r r' b r₂ hr he hres
  obtain ⟨a, r₁, h₁, h₂⟩ := Prog.returns_bind.mp hres
  obtain ⟨he₁, -, r₁', h₁', hr₁⟩ := hm.returns hr he h₁
  obtain ⟨he₂, hb, r₂', h₂', hr₂⟩ := hf a hr₁ he₁ h₂
  exact ⟨he₂, hb, r₂', h₁'.bind h₂', hr₂⟩

/-- A seek to an offset that both inputs share. -/
theorem seekThen (hB : B.exceptions = true) (h : Extends lo x y) {pos : Nat} (hlo : lo ≤ pos)
    {f : ReadM β} (hf : pos ≤ x.length → Tracked B lo x y table' f) :
    Tracked B lo x y table' (Reader.seek pos >>= fun _ => f) := by
  intro r r' b r₂ hr he hres
  obtain ⟨u, r₁, h₁, h₂⟩ := Prog.returns_bind.mp hres
  obtain ⟨hpos, rfl, r₁', h₁', hr₁⟩ := Follows.seek hB h hr hlo h₁
  obtain ⟨he₂, hb, r₂', h₂', hr₂⟩ := hf hpos (.aligned hr₁) he h₂
  exact ⟨he₂, hb, r₂', h₁'.bind h₂', hr₂⟩

/-- The events of a program have no part in this. -/
theorem of_after {m m' : ReadM α} {l : List ReadEvent} (h : ∀ r, m B r = (m' B r).after l)
    (hm' : Tracked B lo x y table m') : Tracked B lo x y table m := by
  have hiff : ∀ {r a r₁}, Prog.Returns m B r a r₁ ↔ Prog.Returns m' B r a r₁ := by
    intro r a r₁
    rw [Prog.Returns, Prog.Returns, h r]
    rfl
  intro r r' a r₁ hr he hres
  obtain ⟨he₁, ha, r₁', hrun, hr₁⟩ := hm' hr he (hiff.mp hres)
  exact ⟨he₁, ha, r₁', hiff.mpr hrun, hr₁⟩

theorem readMember (hB : B.exceptions = true) (h : Extends lo x y)
    (hx : x.length < B.sizeMod) (hmod : x.length + 2 ^ 32 ≤ B.sizeMod)
    {read : Val → ReadM Val} (hread : ∀ v, Follows B (Near lo x y) 0 (read v))
    (hvt : TableAt lo x vt) (out : Val) :
    Tracked B lo x y (fun a => a.2.2) (VersionTolerantReader.readMember read vt out) := by
  by_cases hpast : vt.isNull = true ∨ vt.index ≥ vt.count
  · rw [VersionTolerantReader.readMember, if_pos hpast]
    exact pure hvt
  · refine of_after (readMember_eq hpast) ?_
    rw [hvt.stop_eq hmod]
    refine seekThen hB h hvt.lo_le fun hnext => andThen (.failed (Near.moves hx h)) fun b => ?_
    cases b with
    | true => exact pure ⟨hvt.lo_le, hvt.le_length, hvt.lengths_lt⟩
    | false =>
        refine andThen (hread out) fun v => ?_
        refine seekThen hB h (Nat.le_trans hvt.lo_le (Nat.le_add_right _ _)) fun hstop => ?_
        exact pure (hvt.advance (Nat.le_add_right _ _) hstop)

theorem skipMember (hB : B.exceptions = true) (h : Extends lo x y)
    (hmod : x.length + 2 ^ 32 ≤ B.sizeMod) (hvt : TableAt lo x vt) :
    Tracked B lo x y Prod.snd vt.skipMember := by
  by_cases hpast : vt.isNull = true ∨ vt.index ≥ vt.count
  · rw [VersionTolerantReader.skipMember, if_pos hpast]
    exact pure hvt
  · refine of_after (skipMember_eq hpast) ?_
    rw [hvt.stop_eq hmod]
    refine seekThen hB h (Nat.le_trans hvt.lo_le (Nat.le_add_right _ _)) fun hstop => ?_
    exact pure (hvt.advance (Nat.le_add_right _ _) hstop)

/-- By induction on the members to go. -/
theorem readMembers (hB : B.exceptions = true) (h : Extends lo x y)
    (hx : x.length < B.sizeMod) (hmod : x.length + 2 ^ 32 ≤ B.sizeMod) {S : Schema}
    {read : Ty → Val → ReadM Val} : ∀ (ts : List Ty) (vs : List Val)
      {vt : VersionTolerantReader}, (∀ t ∈ ts, ∀ v, Follows B (Near lo x y) 0 (read t v)) →
      TableAt lo x vt →
      Tracked B lo x y Prod.snd (VersionTolerantReader.readMembers S read ts vs vt)
  | [], vs, vt, _, hvt => pure hvt
  | t :: ts, vs, vt, hread, hvt => by
      rw [VersionTolerantReader.readMembers]
      refine bind (readMember hB h hx hmod (hread t List.mem_cons_self) hvt _) ?_
      rintro ⟨sent, v, vt'⟩ hvt'
      have hrest : Tracked B lo x y Prod.snd
          (VersionTolerantReader.readMembers S read ts vs.tail vt' >>= fun rest =>
            return (v :: rest.1, rest.2)) :=
        bind (readMembers hB h hx hmod ts vs.tail
          (fun u hu => hread u (List.mem_cons_of_mem t hu)) hvt') fun _ hvt'' => pure hvt''
      cases sent with
      | true => exact hrest
      | false => exact andThen (.tell _) fun _ => hrest

theorem skipRest (hB : B.exceptions = true) (h : Extends lo x y)
    (hmod : x.length + 2 ^ 32 ≤ B.sizeMod) : ∀ (left : Nat) {vt : VersionTolerantReader},
      TableAt lo x vt → Tracked B lo x y id (VersionTolerantReader.skipRest left vt)
  | 0, vt, hvt => pure hvt
  | left + 1, vt, hvt => by
      rw [VersionTolerantReader.skipRest]
      exact bind (skipMember hB h hmod hvt) fun _ hvt' => skipRest hB h hmod left hvt'

theorem finish (hB : B.exceptions = true) (h : Extends lo x y)
    (hmod : x.length + 2 ^ 32 ≤ B.sizeMod) (hvt : TableAt lo x vt) :
    Tracked B lo x y id vt.finish := by
  rw [VersionTolerantReader.finish]
  refine bind (skipRest hB h hmod _ hvt) fun vt' hvt' => ?_
  cases hnull : !vt'.isNull with
  | true => exact seekThen hB h hvt'.lo_le fun _ => pure hvt'
  | false => exact andThen (.pure ()) fun _ => pure hvt'

end Tracked

/-! ## Every type on two inputs -/

section Types

variable {B : Build} {lo p : Nat} {x y : List UInt8} {r r' : MemoryPackReader}

theorem Extends.mono (h : Extends lo x y) (hp : lo ≤ p) : Extends p x y :=
  ⟨h.length_le, fun i hi => h.same i (Nat.le_trans hp hi)⟩

theorem Near.lo_le (h : Near lo x y r r') : lo ≤ r.pos := by
  cases h with
  | aligned h => exact h.lo_le
  | ended _ _ hlo hpos => rwa [hpos]

theorem Near.mono (h : Near p x y r r') (hp : lo ≤ p) : Near lo x y r r' := by
  cases h with
  | aligned h => exact .aligned ⟨h.eq, h.data, Nat.le_trans hp h.lo_le, h.le_length⟩
  | ended heq hdata hlo hpos => exact .ended heq hdata (Nat.le_trans hp hlo) hpos

/-- Readers that are both at an end are not before a byte. -/
theorem Near.aligned_of_lt (h : Near lo x y r r') (hlt : r.pos < x.length) :
    Aligned lo x y r r' := by
  cases h with
  | aligned h => exact h
  | ended _ _ _ hpos => exact absurd hpos hlt.ne

/-- `size_t` arithmetic on offsets and lengths does not wrap, or is not done. -/
def TablesFit (S : Schema) (B : Build) (size : Nat) : Prop :=
  S.NoVersionTolerant ∨ size + 2 ^ 32 ≤ B.sizeMod

namespace Follows

/-- The cursor behind the table becomes the offset from which the inputs are compared:
no member starts before it. -/
theorem versionTolerant (hB : B.exceptions = true) (hx : x.length < B.sizeMod)
    (hmod : x.length + 2 ^ 32 ≤ B.sizeMod) (h : Extends lo x y) {S : Schema}
    {read : Ty → Val → ReadM Val} {i : Nat} {v : Val}
    (hread : ∀ p, lo ≤ p → p ≤ x.length → ∀ t w, Follows B (Near p x y) 0 (read t w)) :
    Follows B (Near lo x y) 1 (VersionTolerantReader.deserialize S read i v) := by
  intro r r' a r₃ l hr he hres
  obtain ⟨vt, r₁, hcon, hrest⟩ := Prog.returns_bind.mp (Prog.returns_iff.mpr ⟨l, hres⟩)
  obtain ⟨header, s, hheader, hvt⟩ := VersionTolerantReader.construct_returns hcon
  have haligned : Aligned lo x y r r' := by
    obtain ⟨-, hpos, s', -, hs⟩ := (readObjectHeader hB (Near.moves hx h)).returns hr he hheader
    have hend := hs.le_size
    rw [MemoryPackReader.size, hs.data] at hend
    exact hr.aligned_of_lt (by omega)
  obtain ⟨he₁, hpos₁, r₁', hcon', hr₁⟩ := (construct hB hx h).returns haligned he hcon
  rcases hvt with ⟨-, rfl⟩ | ⟨-, ls, rfl, -⟩
  · -- a null object leaves the target alone
    obtain ⟨ha, rfl⟩ := hrest
    obtain rfl := Out.ret.inj ha
    have hrun : Prog.Returns (VersionTolerantReader.deserialize S read i v) B r' v r₁' := by
      rw [VersionTolerantReader.deserialize]
      exact hcon'.bind ⟨rfl, rfl⟩
    obtain ⟨l', hrun⟩ := Prog.returns_iff.mp hrun
    exact ⟨he₁, hpos₁, r₁', l', hrun, .aligned hr₁⟩
  · have hlo := hr₁.lo_le
    have hp : Extends r₁.pos x y := h.mono hlo
    have htable : TableAt r₁.pos x ⟨ls, header.count.toNat, 0, r₁.pos, false⟩ :=
      ⟨Nat.le_refl _, hr₁.le_length, construct_lengths_lt hcon⟩
    have hnear : Near r₁.pos x y r₁ r₁' :=
      .aligned ⟨hr₁.eq, hr₁.data, Nat.le_refl _, hr₁.le_length⟩
    have hmembers := Tracked.readMembers hB hp hx hmod (S := S) (S.decl i).members v.items
      (fun t _ w => hread r₁.pos hlo hr₁.le_length t w) htable
    have hall : Tracked B r₁.pos x y (fun _ => ⟨ls, header.count.toNat, 0, r₁.pos, false⟩) (do
        let rest ← VersionTolerantReader.readMembers S read (S.decl i).members v.items
          ⟨ls, header.count.toNat, 0, r₁.pos, false⟩
        let _ ← rest.2.finish
        return Val.seq rest.1 : ReadM Val) :=
      hmembers.bind fun _ hvt' => (Tracked.finish hB hp hmod hvt').bind fun _ _ => .pure htable
    obtain ⟨he₃, -, r₃', hafter, hr₃⟩ := hall hnear he₁ hrest
    have hrun : Prog.Returns (VersionTolerantReader.deserialize S read i v) B r' a r₃' := by
      rw [VersionTolerantReader.deserialize]
      exact hcon'.bind hafter
    obtain ⟨l', hrun⟩ := Prog.returns_iff.mp hrun
    exact ⟨he₃, Nat.le_trans hpos₁ hr₃.lo_le, r₃', l', hrun, hr₃.mono hlo⟩

theorem readObject (hB : B.exceptions = true) (hx : x.length < B.sizeMod) {S : Schema}
    (hfit : TablesFit S B x.length) :
    ∀ (fuel : Nat) {lo : Nat}, Extends lo x y → lo ≤ x.length → ∀ (i : Nat) (v : Val),
      Follows B (Near lo x y) 1 (Reader.readObject S fuel i v)
  | 0, _, _, _, _, _ => fun _ _ _ _ _ _ _ hres => by simp [Reader.readObject] at hres
  | fuel + 1, lo, h, hlo, i, v => by
      have hheader := (readRules hB hx h hlo).readObjectHeader
      have hread : ∀ p, lo ≤ p → p ≤ x.length → ∀ t w,
          Follows B (Near p x y) 0 (Reader.readTy S (Reader.readObject S fuel) t w) := by
        intro p hlop hp t w
        have hpx := h.mono hlop
        exact weaken ((readRules hB hx hpx hp).readTy (readObject hB hx hfit fuel hpx hp) t
          (fun _ _ => trivial) w) (Nat.zero_le _)
      cases hk : (S.decl i).kind with
      | define =>
          rw [Reader.readObject_define hk]
          refine bind (k := 0) hheader fun header => ite (fun _ => pure _) fun _ => ?_
          exact objectBody hB hx h (readMembers _ _ 0 v.items fun t _ w =>
            hread lo (Nat.le_refl _) hlo t w)
      | defineEmpty =>
          rw [Reader.readObject_defineEmpty hk]
          exact bind (k := 0) hheader fun header => ite (fun _ => pure _) fun _ =>
            bind (n := 0) (k := 0) (tell _) fun _ => pure _
      | versionTolerant =>
          rw [Reader.readObject_versionTolerant hk]
          rcases hfit with hS | hmod
          · exact absurd hk (hS i)
          · exact versionTolerant hB hx hmod h hread

theorem readTy (hB : B.exceptions = true) (hx : x.length < B.sizeMod) {S : Schema}
    (hfit : TablesFit S B x.length) (h : Extends lo x y) (hlo : lo ≤ x.length) (fuel : Nat)
    (t : Ty) (v : Val) :
    Follows B (Near lo x y) 0 (Reader.readTy S (Reader.readObject S fuel) t v) :=
  weaken ((readRules hB hx h hlo).readTy (readObject hB hx hfit fuel h hlo) t
    (fun _ _ => trivial) v) (Nat.zero_le _)

end Follows

end Types

/-! ## `Read<T>` on two inputs -/

/-- `Read<T>(out)` returns without a failure and leaves `w` in the target. -/
def Decodes (S : Schema) (B : Build) (t : Ty) (r : MemoryPackReader) (out w : Val) : Prop :=
  ∃ r', Prog.Returns (Reader.read S t out) B r w r' ∧ r'.error = .none

section Decodes

variable {S : Schema} {B : Build} {t : Ty} {r r' : MemoryPackReader} {out v w : Val}

theorem Decodes.unique (h : Decodes S B t r out v) (h' : Decodes S B t r out w) : v = w := by
  obtain ⟨r₁, hv, -⟩ := h
  obtain ⟨r₂, hw, -⟩ := h'
  exact (hv.unique hw).1

/-- The build without exceptions succeeds where the other one does. -/
theorem decodes_throwing_iff (he : r.error = .none) :
    Decodes S B.throwing t r out w ↔ Decodes S B t r out w := by
  have hquiet : Decodes S B.throwing t r out w ↔ Decodes S B.quiet t r out w := by
    constructor
    · rintro ⟨r', hret, he'⟩
      obtain ⟨l, hrun⟩ := Prog.returns_iff.mp hret
      have hsame := ((Sync.read S t out).ret he hrun).2
      exact ⟨r', Prog.returns_iff.mpr ⟨l, hsame⟩, he'⟩
    · rintro ⟨r', hret, he'⟩
      obtain ⟨l, hrun⟩ := Prog.returns_iff.mp hret
      have hsame := (Unfailed.read S t out).throwing he hrun he'
      exact ⟨r', Prog.returns_iff.mpr ⟨l, hsame⟩, he'⟩
  cases hB : B.exceptions with
  | true => rw [show B.throwing = B by rw [Build.throwing, ← hB]]
  | false =>
      rw [hquiet]
      rw [show B.quiet = B by rw [Build.quiet, ← hB]]

/-- The exception build, with the bound on nested objects of the shorter input. -/
theorem read_follows {y : List UInt8} (hB : B.exceptions = true)
    (h : Extends r.pos r.data y) (hpos : r.pos ≤ r.data.length)
    (hsize : r.data.length < B.sizeMod) (hfit : TablesFit S B r.data.length) (he : r.error = .none)
    {r₁ : MemoryPackReader} (hrun : Prog.Returns (Reader.read S t out) B r w r₁) :
    r₁.error = .none ∧ ∃ r₁', Prog.Returns (Reader.read S t out) B { r with data := y } w r₁' ∧
      Near r.pos r.data y r₁ r₁' := by
  have hread : ∀ s : MemoryPackReader, Reader.read S t out B s =
      Reader.readTy S (Reader.readObject S (s.data.length + 1)) t out B s := fun s => rfl
  rw [Prog.Returns, hread] at hrun
  have hnear : Near r.pos r.data y r { r with data := y } :=
    .aligned ⟨rfl, rfl, Nat.le_refl _, hpos⟩
  have hfollow := Follows.readTy hB hsize hfit h hpos (r.data.length + 1) t out
  obtain ⟨he₁, -, r₁', hrun', hnear'⟩ := hfollow.returns hnear he hrun
  -- the longer input allows more nested objects, which were not needed
  have hle : r.data.length + 1 ≤ y.length + 1 := Nat.succ_le_succ h.length_le
  have hbelow := Below.readTy (S := S) (Below.readObject hle) t out B { r with data := y }
    (by rw [hrun'.1]; exact fun hd => nomatch hd)
  refine ⟨he₁, r₁', ?_, hnear'⟩
  rw [Prog.Returns, hread, hbelow]
  exact hrun'

theorem Decodes.extend_throwing {y : List UInt8} (hB : B.exceptions = true)
    (h : Extends r.pos r.data y) (hpos : r.pos ≤ r.data.length)
    (hsize : r.data.length < B.sizeMod) (hfit : TablesFit S B r.data.length) (he : r.error = .none)
    (hw : Decodes S B t r out w) : Decodes S B t { r with data := y } out w := by
  obtain ⟨r₁, hrun, -⟩ := hw
  obtain ⟨he₁, r₁', hrun', hnear⟩ := read_follows hB h hpos hsize hfit he hrun
  exact ⟨r₁', hrun', by rw [(Near.moves hsize h).error hnear, he₁]⟩

/-- What `Read<T>` takes from an input it takes from every longer one that has the same
bytes from the cursor on. -/
theorem Decodes.extend {y : List UInt8} (h : Extends r.pos r.data y)
    (hpos : r.pos ≤ r.data.length) (hsize : r.data.length < B.sizeMod)
    (hfit : TablesFit S B r.data.length) (he : r.error = .none) (hw : Decodes S B t r out w) :
    Decodes S B t { r with data := y } out w := by
  have hmod : B.throwing.sizeMod = B.sizeMod := rfl
  have hfit' : TablesFit S B.throwing r.data.length := by
    rw [TablesFit, hmod]
    exact hfit
  have hw' := (decodes_throwing_iff he).mpr hw
  exact (decodes_throwing_iff (r := { r with data := y }) he).mp
    (hw'.extend_throwing rfl h hpos (hmod ▸ hsize) hfit' he)

end Decodes

/-! ## One member -/

namespace VersionTolerantReader

/-- The recorded length of the next member. -/
def recorded (vt : VersionTolerantReader) : Nat := vt.lengths.getD vt.index 0

/-- `ReadMember(out)` returns true without a failure and leaves `w` in the target. -/
def ReadsMember (S : Schema) (B : Build) (t : Ty) (vt : VersionTolerantReader)
    (r : MemoryPackReader) (out w : Val) : Prop :=
  ∃ vt' r', Prog.Returns (vt.readMember (Reader.read S t) out) B r (true, w, vt') r' ∧
    r'.error = .none

/-- `y` has the bytes of `x` where the next member is recorded; everything around them
may be different. -/
def SameMember (vt : VersionTolerantReader) (x y : List UInt8) : Prop :=
  vt.next ≤ y.length ∧ ∀ i, vt.next ≤ i → i < vt.next + vt.recorded → y[i]? = x[i]?

/-- With every other input around the member, `ReadMember(out)` succeeds and leaves the
same value. -/
def Contained (S : Schema) (B : Build) (t : Ty) (vt : VersionTolerantReader)
    (r : MemoryPackReader) (out w : Val) : Prop :=
  ∀ y, vt.SameMember r.data y → vt.ReadsMember S B t { r with data := y } out w

/-- The bytes of the member hold a `T`: `Read<T>` succeeds on an input that stops where
the member stops. -/
def HoldsValue (S : Schema) (B : Build) (t : Ty) (vt : VersionTolerantReader)
    (r : MemoryPackReader) (out : Val) : Prop :=
  ∃ w, Decodes S B t
    { r with data := r.data.take (vt.next + vt.recorded), pos := vt.next } out w

variable {S : Schema} {B : Build} {t : Ty} {vt : VersionTolerantReader} {r : MemoryPackReader}
  {out w : Val}

theorem seek_returns_of_error {pos : Nat} {r' : MemoryPackReader}
    (h : Prog.Returns (Reader.seek pos) B r () r') (he : r'.error = .none) :
    r.error = .none ∧ pos ≤ r.size ∧ r' = { r with pos := pos } := by
  obtain ⟨l, hrun⟩ := Prog.returns_iff.mp h
  by_cases hle : pos ≤ r.size
  · rw [Reader.seek_within hle, Res.mk.injEq] at hrun
    obtain ⟨-, rfl, -⟩ := hrun
    exact ⟨he, hle, rfl⟩
  · cases hB : B.exceptions with
    | true => simp [Reader.seek_past (Nat.not_le.mp hle), Reader.fail_throws hB] at hrun
    | false =>
        rw [Reader.seek_past (Nat.not_le.mp hle), Reader.fail_returns hB, Res.after_mk,
          Res.mk.injEq] at hrun
        obtain ⟨-, rfl, -⟩ := hrun
        exact absurd he (Reader.record_error_ne (by decide))

/-- `ReadMember` succeeds when the member starts and ends inside the input and the decode
from its start succeeds, wherever that ends. -/
theorem readsMember_iff : vt.ReadsMember S B t r out w ↔
    ¬ (vt.isNull = true ∨ vt.index ≥ vt.count) ∧ r.error = .none ∧ vt.next ≤ r.size ∧
      (vt.next + vt.recorded) % B.sizeMod ≤ r.size ∧
      Decodes S B t { r with pos := vt.next } out w := by
  by_cases hpast : vt.isNull = true ∨ vt.index ≥ vt.count
  · refine iff_of_false ?_ fun h => h.1 hpast
    rintro ⟨vt', r', ⟨hout, -⟩, -⟩
    rw [readMember, if_pos hpast] at hout
    exact Bool.noConfusion (Prod.mk.inj (Out.ret.inj hout)).1
  have hmember : ∀ {a r'}, Prog.Returns (vt.readMember (Reader.read S t) out) B r a r' ↔
      Prog.Returns (memberTo (Reader.read S t) vt out ((vt.next + vt.recorded) % B.sizeMod))
        B r a r' := by
    intro a r'
    rw [Prog.Returns, readMember_eq hpast]
    rfl
  constructor
  · rintro ⟨vt', r', hret, he'⟩
    obtain ⟨u, r₁, hstart, hret⟩ := Prog.returns_bind.mp (hmember.mp hret)
    obtain ⟨b, r₂, hb, hret⟩ := Prog.returns_bind.mp hret
    obtain ⟨rfl, rfl⟩ := hb.unique (⟨rfl, rfl⟩ : Prog.Returns Reader.failed B r₁ r₁.failed r₁)
    cases hfailed : r₂.failed with
    | true =>
        rw [hfailed, if_pos rfl] at hret
        exact Bool.noConfusion (Prod.mk.inj (Out.ret.inj hret.1)).1
    | false =>
        rw [hfailed, if_neg (by decide)] at hret
        obtain ⟨v, r₃, hread, hret⟩ := Prog.returns_bind.mp hret
        obtain ⟨u', r₄, hstop, hv, rfl⟩ := Prog.returns_bind.mp hret
        obtain rfl := (Prod.mk.inj (Prod.mk.inj (Out.ret.inj hv)).2).1
        have he₂ : r₂.error = .none := by simpa [MemoryPackReader.failed] using hfailed
        obtain ⟨he, hnext, rfl⟩ := seek_returns_of_error hstart he₂
        obtain ⟨he₃, hle, -⟩ := seek_returns_of_error hstop he'
        have hdata : r₃.data = r.data := hread.2 ▸ (Charged.read S t out B _).data
        rw [MemoryPackReader.size, hdata] at hle
        exact ⟨hpast, he, hnext, hle, r₃, hread, he₃⟩
  · rintro ⟨-, he, hnext, hle, r₁, hread, he₁⟩
    have hdata : r₁.data = r.data := hread.2 ▸ (Charged.read S t out B _).data
    have hle₁ : (vt.next + vt.recorded) % B.sizeMod ≤ r₁.size := by
      rwa [MemoryPackReader.size, hdata]
    have hstart : Prog.Returns (Reader.seek vt.next) B r () { r with pos := vt.next } :=
      Prog.returns_iff.mpr ⟨_, Reader.seek_within hnext⟩
    have hstop := Prog.returns_iff.mpr ⟨_, Reader.seek_within (B := B) hle₁⟩
    have hfailed : Prog.Returns Reader.failed B { r with pos := vt.next } false
        { r with pos := vt.next } := by
      refine ⟨?_, rfl⟩
      show Out.ret (MemoryPackReader.failed { r with pos := vt.next }) = .ret false
      rw [MemoryPackReader.failed, he]
      rfl
    refine ⟨{ vt with index := vt.index + 1, next := (vt.next + vt.recorded) % B.sizeMod },
      { r₁ with pos := (vt.next + vt.recorded) % B.sizeMod }, hmember.mpr ?_, he₁⟩
    exact hstart.bind (hfailed.bind (hread.bind (hstop.bind Prog.returns_pure)))

/-- Cutting the input at the end of the member leaves the member alone. -/
theorem sameMember_take {x : List UInt8} (h : vt.next ≤ x.length) :
    vt.SameMember x (x.take (vt.next + vt.recorded)) := by
  constructor
  · rw [List.length_take]
    exact Nat.le_min.mpr ⟨Nat.le_add_right _ _, h⟩
  · intro i _ hi
    rw [List.getElem?_take, if_pos hi]

theorem SameMember.extends {x y : List UInt8} (h : vt.SameMember x y) :
    Extends vt.next (x.take (vt.next + vt.recorded)) y := by
  have hsame : ∀ i, vt.next ≤ i → i < (x.take (vt.next + vt.recorded)).length →
      y[i]? = (x.take (vt.next + vt.recorded))[i]? := by
    intro i hle hlt
    rw [List.length_take, Nat.lt_min] at hlt
    rw [h.2 i hle hlt.1, List.getElem?_take, if_pos hlt.1]
  refine ⟨?_, hsame⟩
  by_contra hlong
  have hlt := Nat.not_le.mp hlong
  have heq := hsame y.length h.1 hlt
  rw [List.getElem?_eq_none (Nat.le_refl _), List.getElem?_eq_getElem hlt] at heq
  cases heq

end VersionTolerantReader

open VersionTolerantReader in
/-- A `ReadMember(out)` that returned true without a failure, at any member of any table,
for every type. If no change around the member's bytes matters, these bytes hold a `T`
on their own; and if they do, no change around them matters, unless the type has nested
tables whose offsets wrap in a `size_t` of 32 bits. -/
theorem member_contained_iff (S : Schema) (B : Build) (t : Ty) (vt : VersionTolerantReader)
    (r : MemoryPackReader) (out w : Val) (hsize : r.size < B.sizeMod)
    (h : vt.ReadsMember S B t r out w) :
    (vt.Contained S B t r out w → vt.HoldsValue S B t r out) ∧
      (TablesFit S B r.size → vt.HoldsValue S B t r out → vt.Contained S B t r out w) := by
  obtain ⟨hpast, he, hnext, hstop, hread⟩ := readsMember_iff.mp h
  constructor
  · intro hcontained
    obtain ⟨-, -, -, -, hcut⟩ := readsMember_iff.mp (hcontained _ (sameMember_take hnext))
    exact ⟨w, hcut⟩
  · rintro hfit ⟨v, hv⟩ y hy
    have hlen : (r.data.take (vt.next + vt.recorded)).length ≤ r.data.length := by
      rw [List.length_take]
      exact Nat.min_le_right _ _
    have hcut : ∀ z, vt.SameMember r.data z → Decodes S B t { r with data := z, pos := vt.next }
        out v := by
      intro z hz
      refine Decodes.extend (r := { r with data := _, pos := vt.next }) hz.extends
        (sameMember_take hnext).1 (Nat.lt_of_le_of_lt hlen hsize) ?_ he hv
      exact hfit.imp_right fun hmod => Nat.le_trans (Nat.add_le_add_right hlen _) hmod
    -- the input itself is one of those with this member
    obtain rfl : v = w := (hcut r.data ⟨hnext, fun _ _ _ => rfl⟩).unique hread
    refine readsMember_iff.mpr ⟨hpast, he, hy.1, ?_, hcut y hy⟩
    refine Nat.le_trans ?_ hy.extends.length_le
    rw [List.length_take]
    refine Nat.le_min.mpr ⟨Nat.mod_le _ _, hstop⟩

/-- An object with one member of one byte. -/
theorem member_contained_byte :
    Prog.Returns VersionTolerantReader.construct ⟨true, .little, .w64, 0⟩ { data := [1, 1, 7, 9] }
      { lengths := [1], count := 1, next := 2 } { data := [1, 1, 7, 9], pos := 2 } ∧
    VersionTolerantReader.Contained Schema.plain ⟨true, .little, .w64, 0⟩
      (.scalar (.int false .w1)) { lengths := [1], count := 1, next := 2 }
      { data := [1, 1, 7, 9], pos := 2 } (.scalar 0) (.scalar 7) :=
  ⟨⟨rfl, rfl⟩, (member_contained_iff Schema.plain ⟨true, .little, .w64, 0⟩
    (.scalar (.int false .w1)) { lengths := [1], count := 1, next := 2 }
    { data := [1, 1, 7, 9], pos := 2 } (.scalar 0) (.scalar 7) (by decide)
    ⟨_, _, ⟨rfl, rfl⟩, rfl⟩).2 (.inr (by decide)) ⟨_, _, ⟨rfl, rfl⟩, rfl⟩⟩

/-- The first of two members has length 0 in the table. `ReadMember` returns true for it
with the byte of the second one: 7 here, and 8 when that byte is 8. -/
theorem empty_member_takes_the_next :
    Prog.Returns VersionTolerantReader.construct ⟨true, .little, .w64, 0⟩ { data := [2, 0, 1, 7] }
      { lengths := [0, 1], count := 2, next := 3 } { data := [2, 0, 1, 7], pos := 3 } ∧
    Prog.Returns VersionTolerantReader.construct ⟨true, .little, .w64, 0⟩ { data := [2, 0, 1, 8] }
      { lengths := [0, 1], count := 2, next := 3 } { data := [2, 0, 1, 8], pos := 3 } ∧
    VersionTolerantReader.ReadsMember Schema.plain ⟨true, .little, .w64, 0⟩
      (.scalar (.int false .w1)) { lengths := [0, 1], count := 2, next := 3 }
      { data := [2, 0, 1, 7], pos := 3 } (.scalar 0) (.scalar 7) ∧
    ¬ VersionTolerantReader.Contained Schema.plain ⟨true, .little, .w64, 0⟩
      (.scalar (.int false .w1)) { lengths := [0, 1], count := 2, next := 3 }
      { data := [2, 0, 1, 7], pos := 3 } (.scalar 0) (.scalar 7) := by
  refine ⟨⟨rfl, rfl⟩, ⟨rfl, rfl⟩, ⟨_, _, ⟨rfl, rfl⟩, rfl⟩, fun hcontained => ?_⟩
  have hsame : VersionTolerantReader.SameMember { lengths := [0, 1], count := 2, next := 3 }
      [2, 0, 1, 7] [2, 0, 1, 8] := by
    refine ⟨by decide, fun i hle hlt => ?_⟩
    exact absurd hlt (Nat.not_lt.mpr hle)
  obtain ⟨vt', r', hseven, -⟩ := hcontained [2, 0, 1, 8] hsame
  have height : Prog.Returns (VersionTolerantReader.readMember
      (Reader.read Schema.plain (.scalar (.int false .w1)))
      { lengths := [0, 1], count := 2, next := 3 } (.scalar 0)) ⟨true, .little, .w64, 0⟩
      { data := [2, 0, 1, 8], pos := 3 }
      (true, .scalar 8, { lengths := [0, 1], count := 2, index := 1, next := 3 })
      { data := [2, 0, 1, 8], pos := 3 } := ⟨rfl, rfl⟩
  have heq := (Prod.mk.inj (Prod.mk.inj (hseven.unique height).1).2).1
  exact absurd (Val.scalar.inj heq) (by decide)

end MemoryPack
