import MemoryPack.Reader.Basic

/-!
# Reading on hosts of either byte order

`B` and `B'` are two builds of the same program that differ in the byte order of
their hosts. Every number is converted as it is read, so nothing that is read
differs; a range of numbers is copied on one host and read in a loop on the other,
behind the check that all of it is there.

The exception is a `std::optional` of a two-byte enum. `ReadNullable` converts it as
an enum, which is not integral, through eight bytes of which it sets two
(`endianConvertFloat`); such types are not `Portable`.
-/

namespace MemoryPack

open Effect LittleEndian

/-! ## Conversions -/

/-- The types `detail::endian_convert` is right for. -/
def Scalar.Converts : Scalar → Prop
  | .enum _ .w2 => False
  | _ => True

instance (s : Scalar) : Decidable s.Converts := by
  unfold Scalar.Converts
  split
  · exact isFalse id
  · exact isTrue trivial

/-- A value that fills `raw` is swapped. -/
theorem endianConvertFloat_eq {B : Build} (hB : B.endian = .big) {w : Nat} (h : w = 4 ∨ w = 8)
    (n : Nat) : endianConvertFloat B w n = byteswap w n := by
  have hdrop : (hostBytes .big (if w = 4 then 4 else 8) B.stack.toNat).drop w = [] := by
    apply List.drop_eq_nil_of_le
    rcases h with rfl | rfl <;> simp [hostBytes]
  have htake : (leBytes w n).take w = leBytes w n :=
    List.take_of_length_le (Nat.le_of_eq (length_leBytes w n))
  have hraw : (hostBytes .big w n).reverse = leBytes w n := List.reverse_reverse _
  show hostNat B.endian ((hostBytes B.endian w n ++ _).reverse.take w) = byteswap w n
  rw [hB, hdrop, List.append_nil, hraw, htake, byteswap_eq]
  rfl

/-- An enum that is not two bytes wide is converted like the integer it is. -/
theorem endianConvertOf_eq {B : Build} {s : Scalar} (hs : s.Converts) (n : Nat) :
    endianConvertOf B s n = endianConvert B.endian s.size n := by
  cases s with
  | enum signed w =>
      cases hB : B.endian with
      | little => rw [endianConvertOf_little hB, endianConvert, if_pos (Or.inl rfl)]
      | big =>
          cases w with
          | w2 => exact hs.elim
          | w1 => simp [endianConvertOf, endianConvert, Scalar.size, Scalar.width, Width.bytes]
          | w4 =>
              have hfloat := endianConvertFloat_eq hB (.inl rfl) n
              simpa [endianConvertOf, endianConvert, Scalar.size, Scalar.width, Width.bytes, hB]
                using hfloat
          | w8 =>
              have hfloat := endianConvertFloat_eq hB (.inr rfl) n
              simpa [endianConvertOf, endianConvert, Scalar.size, Scalar.width, Width.bytes, hB]
                using hfloat
  | _ => rfl

/-- What is read into a `Nullable<T>` is the number on the wire. -/
theorem endianConvertOf_hostNat {B : Build} {s : Scalar} (hs : s.Converts) {bs : List UInt8}
    (h : bs.length = s.size) : endianConvertOf B s (hostNat B.endian bs) = leNat bs := by
  rw [endianConvertOf_eq hs, ← h]
  exact Reader.endianConvert_hostNat B.endian bs

/-! ## Two builds, one run -/

/-- The same program for another host. -/
structure SameTarget (B B' : Build) : Prop where
  exceptions : B.exceptions = B'.exceptions
  size : B.size = B'.size

theorem SameTarget.sizeMod {B B' : Build} (h : SameTarget B B') : B.sizeMod = B'.sizeMod := by
  rw [Build.sizeMod, Build.sizeMod, h.size]

/-- The runs from `r` end alike; their events need not be the same. -/
structure Alike (B B' : Build) {α : Type} (r : MemoryPackReader) (m : ReadM α) : Prop where
  out : (m B r).out = (m B' r).out
  st : (m B r).st = (m B' r).st
  data : (m B r).st.data = r.data

/-- The runs from every reader over an input that fits in memory end alike. -/
def HostFree (B B' : Build) {α : Type} (m : ReadM α) : Prop :=
  ∀ r : MemoryPackReader, r.size < B.sizeMod → Alike B B' r m

namespace Alike

variable {B B' : Build} {α β : Type} {r : MemoryPackReader}

theorem of_eq {m : ReadM α} {o : Out MemoryPackError α} {s : MemoryPackReader}
    {l l' : List ReadEvent} (h : m B r = ⟨o, s, l⟩) (h' : m B' r = ⟨o, s, l'⟩)
    (hs : s.data = r.data) : Alike B B' r m := by
  constructor
  · rw [h, h']
  · rw [h, h']
  · rw [h]
    exact hs

theorem bind {m : ReadM α} {f : α → ReadM β} (hm : Alike B B' r m)
    (hf : ∀ a r' l, m B r = ⟨.ret a, r', l⟩ → Alike B B' r' (f a)) :
    Alike B B' r (m >>= f) := by
  obtain ⟨hout, hst, hdata⟩ := hm
  rcases hres : m B r with ⟨a | e | _, s, l⟩ <;> rcases hres' : m B' r with ⟨o, s', l'⟩ <;>
    rw [hres, hres'] at hout hst <;> rw [hres] at hdata <;> cases hout <;> cases hst
  · obtain ⟨hout', hst', hdata'⟩ := hf a s l hres
    refine ⟨?_, ?_, ?_⟩
    · rw [Prog.bind_apply, Prog.bind_apply, hres, hres']
      exact hout'
    · rw [Prog.bind_apply, Prog.bind_apply, hres, hres']
      exact hst'
    · rw [Prog.bind_apply, hres]
      exact hdata'.trans hdata
  · exact of_eq (by rw [Prog.bind_apply, hres, Res.bind_throw])
      (by rw [Prog.bind_apply, hres', Res.bind_throw]) hdata
  · exact of_eq (by rw [Prog.bind_apply, hres, Res.bind_diverge])
      (by rw [Prog.bind_apply, hres', Res.bind_diverge]) hdata

theorem tell {e : ReadEvent} {f : Unit → ReadM α} (hf : Alike B B' r (f ())) :
    Alike B B' r (Prog.tell e >>= f) := ⟨hf.out, hf.st, hf.data⟩

theorem get {f : MemoryPackReader → ReadM α} (hf : Alike B B' r (f r)) :
    Alike B B' r (Prog.get >>= f) := ⟨hf.out, hf.st, hf.data⟩

theorem size_eq {m : ReadM α} {o : Out MemoryPackError α} {r' : MemoryPackReader}
    {l : List ReadEvent} (hm : Alike B B' r m) (hres : m B r = ⟨o, r', l⟩) : r'.size = r.size := by
  have hdata := hm.data
  rw [hres] at hdata
  rw [MemoryPackReader.size, hdata, MemoryPackReader.size]

end Alike

namespace HostFree

variable {B B' : Build} {α β : Type}

/-- The second part only has to end alike behind what the first part established. -/
theorem bindFrom {m : ReadM α} {f : α → ReadM β} (hm : HostFree B B' m)
    (hf : ∀ r a r' l, m B r = ⟨.ret a, r', l⟩ → r'.size < B.sizeMod → Alike B B' r' (f a)) :
    HostFree B B' (m >>= f) := by
  intro r hr
  refine (hm r hr).bind fun a r' l hres => hf r a r' l hres ?_
  rw [(hm r hr).size_eq hres]
  exact hr

theorem bind {m : ReadM α} {f : α → ReadM β} (hm : HostFree B B' m)
    (hf : ∀ a, HostFree B B' (f a)) : HostFree B B' (m >>= f) :=
  hm.bindFrom fun _ a r' _ _ hr' => hf a r' hr'

section Steps

variable (h : SameTarget B B')

include h

theorem fail (code : MemoryPackError) : HostFree B B' (Reader.fail code) := by
  intro r _
  cases hB : B.exceptions with
  | true =>
      have hB' := h.exceptions.symm.trans hB
      exact .of_eq (Reader.fail_throws hB code) (Reader.fail_throws hB' code) rfl
  | false =>
      have hB' := h.exceptions.symm.trans hB
      exact .of_eq (Reader.fail_returns hB code) (Reader.fail_returns hB' code) rfl

theorem cursorRules : CursorRules (fun {α} => HostFree B B' (α := α)) :=
  .of_setPos ⟨fun _ _ _ => ⟨rfl, rfl, rfl⟩, bind⟩ (fun _ _ => ⟨rfl, rfl, rfl⟩)
    (fun _ _ _ => ⟨rfl, rfl, rfl⟩) (fun _ => fail h _) fun _ _ _ => ⟨rfl, rfl, rfl⟩

theorem readRaw (w : Nat) : HostFree B B' (Reader.readRaw w) := by
  intro r hr
  by_cases he : r.error = .none
  · by_cases hw : w ≤ r.remaining
    · exact .of_eq (Reader.readRaw_ok he hw) (Reader.readRaw_ok he hw) rfl
    · have hfail := (cursorRules h).failWith (by decide : MemoryPackError.bufferUnderflow ≠ .none) (0 : Nat) r hr
      obtain ⟨hout, hst, hdata⟩ := hfail
      constructor
      · rw [Reader.readRaw_short he (Nat.not_le.mp hw), Reader.readRaw_short he (Nat.not_le.mp hw)]
        exact hout
      · rw [Reader.readRaw_short he (Nat.not_le.mp hw), Reader.readRaw_short he (Nat.not_le.mp hw)]
        exact hst
      · rw [Reader.readRaw_short he (Nat.not_le.mp hw)]
        exact hdata
  · exact .of_eq (Reader.readRaw_failed he) (Reader.readRaw_failed he) rfl

omit h in
theorem nullTest : HostFree B B' Reader.nullCollectionTest := by
  intro r _
  by_cases h4 : 4 ≤ r.remaining
  · by_cases he : r.error = .none
    · exact .of_eq (Reader.nullCollectionTest_ok he h4) (Reader.nullCollectionTest_ok he h4) rfl
    · exact .of_eq (Reader.nullCollectionTest_failed he h4)
        (Reader.nullCollectionTest_failed he h4) rfl
  · exact .of_eq (Reader.nullCollectionTest_short h4) (Reader.nullCollectionTest_short h4) rfl

theorem measuredRules : MeasuredRules (fun {α} => HostFree B B' (α := α)) :=
  { cursorRules h with
    readRaw := readRaw h
    modulus := fun {_ f} hf hsame r hr => by
      have hrun := hf B r hr
      have heq : f B = f B' := hsame B B' h.sizeMod
      exact ⟨hrun.out.trans (by rw [heq]; rfl), hrun.st.trans (by rw [heq]; rfl), hrun.data⟩
    nullTest := nullTest
    setPos := fun _ _ _ => ⟨rfl, rfl, rfl⟩
    measured := fun _ _ _ => ⟨rfl, rfl, rfl⟩ }

/-! ## Ranges of numbers -/

omit h in
/-- One copy or a loop, behind the check that the bytes are there. -/
theorem readContiguous_alike {w count : Nat} {r : MemoryPackReader} (he : r.error = .none)
    (hn : count * w ≤ r.remaining) (hlt : count * w < B.sizeMod) (hlt' : count * w < B'.sizeMod) :
    Alike B B' r (Reader.readContiguous w count) := by
  obtain ⟨l, hrun⟩ := Reader.readContiguous_ok (B := B) w count he hn hlt
  obtain ⟨l', hrun'⟩ := Reader.readContiguous_ok (B := B') w count he hn hlt'
  exact .of_eq hrun hrun' rfl

/-- The check in front of a range of elements, and what follows when it passed. -/
theorem checked {w count : Nat} {m g : ReadM α} (hm : HostFree B B' m) {r : MemoryPackReader}
    (hr : r.size < B.sizeMod) (hn : count * w ≤ r.remaining)
    (hg : r.error = .none → count * w < B.sizeMod → Alike B B' r g) :
    Alike B B' r (do if !(← Reader.ensureBytes (← Reader.sizeProduct count w)) then m else g) := by
  have hlt : count * w < B.sizeMod :=
    Nat.lt_of_le_of_lt hn (Nat.lt_of_le_of_lt (Nat.sub_le _ _) hr)
  have hs := measuredRules h
  refine (hs.sizeProduct count w r hr).bind fun n r' l hres => ?_
  rw [Reader.sizeProduct_apply, Res.mk.injEq] at hres
  obtain ⟨hn', rfl, -⟩ := hres
  obtain rfl := Out.ret.inj hn'
  have hens := hs.ensureBytes (count * w % B.sizeMod) r hr
  refine hens.bind fun ok r' l hres => ?_
  rcases Reader.ensureBytes_returns hres with ⟨rfl, he, -, rfl⟩ | ⟨rfl, -⟩
  · exact hg he hlt
  · refine hm r' ?_
    rw [hens.size_eq hres]
    exact hr

/-- `ReadCollectionLength`, and what follows for a length it accepted. -/
theorem length {w : Nat} (hw : 0 < w) {f : Int → ReadM α}
    (hsome : ∀ len r, 0 < len → r.size < B.sizeMod → len.toNat * w ≤ r.remaining →
      Alike B B' r (f len))
    (hnone : ∀ len, len ≤ 0 → HostFree B B' (f len)) :
    HostFree B B' (Reader.readCollectionLength w >>= f) := by
  refine ((measuredRules h).readCollectionLength w).bindFrom fun r len r' l hres hr' => ?_
  by_cases hlen : len ≤ 0
  · exact hnone len hlen r' hr'
  · rcases Reader.readCollectionLength_returns hres with
      ⟨-, -, rfl, -, rfl | hok⟩ | ⟨hle, -⟩
    · exact absurd (by decide) hlen
    · exact hsome len _ (by omega) hr' (Nat.mul_le_of_le_div _ _ _ (hok.present hw))
    · exact absurd hle hlen

theorem readVector {w : Nat} (hw : 0 < w) : HostFree B B' (Reader.readVector w) := by
  have hs := measuredRules h
  refine length h hw (fun len r hlen hr hn => ?_) fun len hlen => ?_
  · rw [if_neg (Int.not_le.mpr hlen)]
    refine checked h (hs.pure _) hr hn fun he hlt => ?_
    exact .get (.tell (.tell (readContiguous_alike he hn hlt (h.sizeMod ▸ hlt))))
  · rw [if_pos hlen]
    exact hs.pure _

theorem readArray {w : Nat} (hw : 0 < w) (maxCount : Int) :
    HostFree B B' (Reader.readArray w maxCount) := by
  have hs := measuredRules h
  refine length h hw (fun len r hlen hr hn => ?_) fun len hlen => ?_
  · rw [if_neg (Int.not_le.mpr hlen)]
    have hstored : (if len ≤ maxCount then len else maxCount).toNat * w ≤ r.remaining := by
      refine Nat.le_trans (Nat.mul_le_mul_right w ?_) hn
      split <;> omega
    have hskip := fun skip (stored : List Nat) => hs.map (hs.skipElements w skip) fun _ => stored
    refine Prog.Closed.ite (P := fun m => Alike B B' r m) (fun _ => ?_) fun _ => hskip _ [] r hr
    refine checked h (hs.pure _) hr hstored fun he hlt => ?_
    have hread : Alike B B' r _ := readContiguous_alike he hstored hlt (h.sizeMod ▸ hlt)
    refine hread.bind fun stored r' l hres => hskip _ stored r' ?_
    rw [hread.size_eq hres]
    exact hr
  · rw [if_pos hlen]
    exact hs.pure _

/-! ## Nullable values -/

omit h in
theorem takeBytes_length {n : Nat} {r r' : MemoryPackReader} {l : List ReadEvent} {bs : List UInt8}
    (hres : Reader.takeBytes n B r = ⟨.ret (some bs), r', l⟩) : bs.length = n := by
  rcases Reader.takeBytes_returns hres with ⟨-, hn, hbs, -⟩ | ⟨hnone, -⟩
  · rw [Option.some.inj hbs]
    exact Reader.length_rest_take hn
  · simp at hnone

omit h in
/-- The value part of a `Nullable<T>` has the size of `T`. -/
theorem readNullable_length {align size : Nat} (ha : 0 < align) {r r' : MemoryPackReader}
    {l : List ReadEvent} {bs : List UInt8}
    (hres : Reader.readNullable align size B r = ⟨.ret (some bs), r', l⟩) : bs.length = size := by
  obtain ⟨o, r₁, l₁, l₂, htake, hrest, -⟩ := Prog.bind_eq_ret hres
  cases o with
  | none => simp at hrest
  | some src =>
      have hlen := takeBytes_length htake
      have hfit := size_le_nullableSize ha size
      dsimp only at hrest
      split at hrest
      · simp at hrest
      · have hbs : (src.drop align).take size = bs := by simpa using congrArg Res.out hrest
        rw [← hbs, List.length_take, List.length_drop]
        omega

theorem readNullableOf {t : Ty} (ht : ∀ s, t = .scalar s → s.Converts) :
    HostFree B B' (Reader.readNullableOf t) := by
  have hs := measuredRules h
  cases t with
  | scalar s =>
      refine (hs.readNullable s.size s.size).bindFrom fun r o r' l hres hr' => ?_
      cases o with
      | none => exact hs.pure _ r' hr'
      | some bs =>
          have hlen := readNullable_length s.size_pos hres
          -- both hosts return the number on the wire
          have hrun : ∀ B : Build, ((do
              let B ← Prog.ask
              return .some (.scalar (endianConvertOf B s (hostNat B.endian bs))) : ReadM Val) B r')
              = ⟨.ret (.some (.scalar (leNat bs))), r', []⟩ := by
            intro B
            rw [← endianConvertOf_hostNat (B := B) (ht s rfl) hlen]
            rfl
          exact .of_eq (hrun B) (hrun B') rfl
  | unmanaged u =>
      refine hs.bind (hs.readNullable u.align u.size) fun o => ?_
      cases o with
      | none => exact hs.pure _
      | some bs => exact hs.pure _
  | _ => exact hs.pure _

theorem readRules : ReadRules (fun {α} _ => HostFree B B' (α := α))
    (fun u => ∀ x, u = .optional x → ∀ s, x = .scalar s → s.Converts) where
  pure := (measuredRules h).pure
  bind := bind
  weaken := fun hm _ => hm
  takeBytes := (measuredRules h).takeBytes
  readRaw := readRaw h
  failWith := fun _ a hc => (measuredRules h).failWith hc a
  advance := (measuredRules h).advance
  readString := (measuredRules h).readString
  readVector := readVector h
  readVectorBool := (measuredRules h).readVectorBool
  readArray := fun {_ s} _ => readArray h s.size_pos _
  readNullableOf := fun ht _ => readNullableOf h (ht _ rfl)
  elements := fun _ he => (measuredRules h).elements he
  nullCollection := (measuredRules h).nullCollection
  nullObject := (measuredRules h).nullObject
  undeclaredUnion := (measuredRules h).undeclaredUnion

theorem objectBody {v : Val} {members : ReadM (List Val)} (hm : HostFree B B' members) :
    HostFree B B' (Reader.objectBody v members) := by
  have hs := measuredRules h
  have modify : ∀ f : MemoryPackReader → MemoryPackReader, (∀ r, (f r).data = r.data) →
      HostFree B B' (Prog.modify f : ReadM Unit) := fun f hf r _ => ⟨rfl, rfl, hf r⟩
  have tell : ∀ e, HostFree B B' (Prog.tell e : ReadM Unit) := fun _ _ _ => ⟨rfl, rfl, rfl⟩
  have enter : HostFree B B' Reader.enterObject := by
    refine hs.bind hs.get fun _ => bind (tell _) fun _ => bind (modify _ fun _ => rfl) fun _ => ?_
    exact hs.bind hs.get fun _ => Prog.Closed.ite (fun _ => hs.failWith (by decide) _)
      fun _ => hs.pure _
  have leave : HostFree B B' Reader.leaveObject := modify _ fun r => by split <;> rfl
  refine bind enter fun ok => Prog.Closed.ite (fun _ => hs.pure _) fun _ => ?_
  exact bind (tell _) fun _ => bind hm fun _ => bind (tell _) fun _ => bind leave fun _ => hs.pure _

end Steps

end HostFree

/-! ## `Read<T>` -/

/-- No `std::optional` of a two-byte enum occurs in the type. -/
def Ty.Portable (t : Ty) : Prop := t.OptionalsIn fun u => ∀ s, u = .scalar s → s.Converts

def Schema.Portable (S : Schema) : Prop := ∀ i, ∀ t ∈ (S.decl i).members, t.Portable

/-- Every input is read alike on both hosts. -/
theorem HostFree.read {B B' : Build} (h : SameTarget B B') {S : Schema} (hS : S.Portable) {t : Ty}
    (ht : t.Portable) (v : Val) : HostFree B B' (Reader.read S t v) := by
  have hty : ∀ {named : Nat → Val → ReadM Val}, (∀ i v, HostFree B B' (named i v)) →
      ∀ t : Ty, t.Portable → ∀ v, HostFree B B' (Reader.readTy S named t v) :=
    fun hnamed t ht v => (readRules h).readTy hnamed t ht.partsIn v
  have hdiv : HostFree B B' (Prog.diverge : ReadM Val) := fun _ _ => ⟨rfl, rfl, rfl⟩
  refine (measuredRules h).bind (measuredRules h).get fun r => ?_
  refine hty ((measuredRules h).readObject (objectBody h) hdiv ?_ (r.size + 1)) t ht v
  intro named hnamed i u hu w
  exact hty hnamed u (hS i u hu) w

end MemoryPack
