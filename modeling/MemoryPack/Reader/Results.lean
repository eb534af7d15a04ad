import MemoryPack.Lib.Postcondition
import MemoryPack.Reader.Landing
import MemoryPack.Reader.Nesting
import MemoryPack.Wire.Encode

/-!
# The values that reads return

What a read returns, whatever the input: a number of its width, a `bool` of 0 or 1, a string
no longer than the input and the options allow, a collection of at most `2 ^ 31 - 1`
elements. A read that fails and goes on returns its default, which is such a value too. The
postconditions are about a reader that stays over one input and under one set of options.
-/

namespace MemoryPack

open Effect LittleEndian

/-- A reader over the same input and under the same options. -/
structure MemoryPackReader.Same (r₀ r : MemoryPackReader) : Prop where
  options : r.options = r₀.options
  data : r.data = r₀.data

/-- The longest string that a reader returns: a unit of UTF-16 becomes at most three bytes. -/
def MemoryPackReader.longestString (r : MemoryPackReader) : Nat :=
  3 * min r.options.maxStringLength.toNat r.size

/-- The reads of `m` over the input of `r₀` return values with `Q`. -/
abbrev Gives (r₀ : MemoryPackReader) {α : Type} (m : ReadM α) (Q : α → Prop) : Prop :=
  Prog.Yields r₀.Same m Q

theorem hostNat_lt {e : Endian} {bs : List UInt8} {w : Nat} (h : bs.length ≤ w) :
    hostNat e bs < 256 ^ w := by
  have hpow : 256 ^ bs.length ≤ 256 ^ w := Nat.pow_le_pow_right (by decide) h
  cases e with
  | little => exact Nat.lt_of_lt_of_le (leNat_lt bs) hpow
  | big =>
      have hlt := leNat_lt bs.reverse
      rw [List.length_reverse] at hlt
      exact Nat.lt_of_lt_of_le hlt hpow

/-- The value in the memory of a `Nullable<T>` is a number of its width. -/
theorem endianConvertOf_lt (B : Build) {s : Scalar} {bs : List UInt8} (h : bs.length = s.size) :
    endianConvertOf B s (hostNat B.endian bs) < 256 ^ s.size := by
  have hint : endianConvert B.endian s.size (hostNat B.endian bs) < 256 ^ s.size := by
    rw [← h, Reader.endianConvert_hostNat]
    exact leNat_lt bs
  cases s with
  | enum sg w =>
      unfold endianConvertOf
      dsimp only
      split
      · exact hostNat_lt (Nat.le_of_eq h)
      · apply hostNat_lt
        rw [List.length_take]
        exact Nat.min_le_left _ _
  | _ => exact hint

theorem splitWords_lt (w : Nat) : ∀ (count : Nat) (bs : List UInt8),
    (Reader.splitWords w count bs).length = count ∧
      ∀ n ∈ Reader.splitWords w count bs, n < 256 ^ w
  | 0, bs => ⟨rfl, by simp [Reader.splitWords]⟩
  | count + 1, bs => by
      obtain ⟨hlen, hall⟩ := splitWords_lt w count (bs.drop w)
      have hfirst : leNat (bs.take w) < 256 ^ w :=
        hostNat_lt (e := .little) (List.length_take_le w bs)
      exact ⟨congrArg Nat.succ hlen, List.forall_mem_cons.mpr ⟨hfirst, hall⟩⟩

namespace Gives

variable {r₀ : MemoryPackReader} {α β : Type}

/-- A statement that keeps input and options, and what its returns are. -/
theorem of_returns {m : ReadM α} {Q : α → Prop} (hn : Nested m) (hs : Sticky m)
    (h : ∀ {B r a r' l}, r₀.Same r → m B r = ⟨.ret a, r', l⟩ → Q a) : Gives r₀ m Q := by
  intro B r a r' hr hrun
  obtain ⟨l, hrun⟩ := Prog.returns_iff.mp hrun
  have hoptions := (hn B r).options
  have hdata := (hs B r).1
  rw [hrun] at hoptions hdata
  exact ⟨⟨hoptions.trans hr.options, hdata.trans hr.data⟩, h hr hrun⟩

/-- A statement whose value does not matter. -/
theorem any {m : ReadM α} (hn : Nested m) (hs : Sticky m) : Gives r₀ m fun _ => True :=
  of_returns hn hs fun _ _ => trivial

theorem fail {code : MemoryPackError} (hc : code ≠ .none) :
    Gives r₀ (Reader.fail code) fun _ => True :=
  any (.fail hc) (.fail hc)

theorem failWith {code : MemoryPackError} (hc : code ≠ .none) {a : α} {Q : α → Prop} (ha : Q a) :
    Gives r₀ (do Reader.fail code; return a : ReadM α) Q :=
  (fail hc).bind fun _ _ => .pure ha

theorem failed : Gives r₀ Reader.failed fun _ => True :=
  any Nested.basicRules.failed Sticky.basicRules.failed

theorem ensureBytes (n : Nat) : Gives r₀ (Reader.ensureBytes n) fun _ => True :=
  any (Nested.basicRules.ensureBytes n) (Sticky.basicRules.ensureBytes n)

theorem advance (n : Nat) : Gives r₀ (Reader.advance n) fun _ => True :=
  any (Nested.basicRules.advance n) (Sticky.basicRules.advance n)

theorem sizeProduct (a b : Nat) : Gives r₀ (Reader.sizeProduct a b) fun _ => True :=
  any (Nested.basicRules.sizeProduct a b) (Sticky.basicRules.sizeProduct a b)

theorem skipElements (w : Nat) (skipCount : Int) :
    Gives r₀ (Reader.skipElements w skipCount) fun _ => True :=
  any (Nested.basicRules.skipElements w skipCount) (Sticky.basicRules.skipElements w skipCount)

theorem peekIsNull : Gives r₀ Reader.peekIsNull fun _ => True :=
  any Nested.basicRules.peekIsNull Sticky.basicRules.peekIsNull

theorem nullTest : Gives r₀ Reader.nullCollectionTest fun _ => True :=
  any Nested.nullTest Sticky.nullTest

/-! ## Numbers -/

theorem takeBytes (n : Nat) : Gives r₀ (Reader.takeBytes n) fun o =>
    ∀ bs, o = some bs → bs.length = n := by
  apply of_returns (Nested.basicRules.takeBytes n) (Sticky.basicRules.takeBytes n)
  intro B r o r' l _ hrun bs hbs
  rcases Reader.takeBytes_returns hrun with ⟨-, hn, rfl, -⟩ | ⟨rfl, -⟩
  · obtain rfl := Option.some.inj hbs
    exact Reader.length_rest_take hn
  · cases hbs

theorem readByte : Gives r₀ Reader.readByte fun _ => True :=
  any Nested.basicRules.readByte Sticky.basicRules.readByte

theorem readRaw (w : Nat) : Gives r₀ (Reader.readRaw w) (· < 256 ^ w) := by
  apply of_returns (Nested.basicRules.readRaw w) (Sticky.basicRules.readRaw w)
  intro B r n r' l _ hrun
  rcases Reader.readRaw_returns hrun with ⟨-, hw, rfl, -⟩ | ⟨rfl, -⟩
  · exact hostNat_lt (e := .little) (List.length_take_le w _)
  · exact Nat.pow_pos (by decide)

theorem readScalar (s : Scalar) : Gives r₀ (Reader.readScalar s) s.Holds := by
  have hbyte : Gives r₀ Reader.readUInt8 (· < 256) := readByte.map fun b _ => b.toNat_lt
  have hbool : Gives r₀ Reader.readBool (· < 2) := by
    refine readByte.map fun b _ => ?_
    split <;> decide
  cases s with
  | bool => exact hbool
  | float => exact readRaw 4
  | double => exact readRaw 8
  | int sg w =>
      cases w with
      | w1 => exact hbyte
      | w2 => exact readRaw 2
      | w4 => exact readRaw 4
      | w8 => exact readRaw 8
  | enum sg w => exact readRaw w.bytes

theorem readUInt8s : ∀ n, Gives r₀ (Reader.readUInt8s n) fun bs => bs.length = n
  | 0 => .pure rfl
  | n + 1 => readByte.bind fun _ _ => (readUInt8s n).map fun _ hbs => congrArg Nat.succ hbs

theorem readRaws (w : Nat) : ∀ count, Gives r₀ (Reader.readRaws w count) fun ns =>
    ns.length = count ∧ ∀ n ∈ ns, n < 256 ^ w
  | 0 => .pure ⟨rfl, by simp⟩
  | count + 1 => (readRaw w).bind fun n hn => (readRaws w count).map fun ns hns =>
      ⟨congrArg Nat.succ hns.1, List.forall_mem_cons.mpr ⟨hn, hns.2⟩⟩

/-! ## Strings -/

theorem length_utf8Codepoint (cp : Nat) : (utf8Codepoint cp).length ≤ 4 ∧
    (cp ≤ 0xFFFF → (utf8Codepoint cp).length ≤ 3) := by
  unfold utf8Codepoint
  split
  · simp
  · split
    · simp
    · split
      · simp
      · next h => simp [h]

theorem setPos (pos : Nat) : Gives r₀ (Reader.setPos pos) fun _ => True :=
  any (.setPos pos) (Sticky.basicRules.setPos pos)

/-- A unit becomes at most three bytes, a pair of units four. -/
theorem utf16Loop (left : Nat) (out : List UInt8) : Gives r₀ (Reader.utf16Loop left out)
    fun bs => bs.length ≤ out.length + 3 * left := by
  have happend : ∀ (cp k : Nat), (utf8Codepoint cp).length ≤ k →
      (out ++ utf8Codepoint cp).length ≤ out.length + k := by
    intro cp k hk
    rw [List.length_append]
    exact Nat.add_le_add_left hk _
  have hreplaced := happend 0xFFFD 3 (by decide)
  match left with
  | 0 =>
      rw [Reader.utf16Loop]
      exact .pure (Nat.le_refl _)
  | left + 1 =>
      rw [Reader.utf16Loop]
      refine (readRaw 2).bind fun hi hlt => .ite (fun _ => ?_) fun _ => ?_
      · match left with
        | 0 => exact .pure hreplaced
        | left' + 1 =>
            refine (readRaw 2).bind fun lo _ => .ite (fun _ => ?_) fun _ => ?_
            · refine (utf16Loop left' _).weaken fun bs hbs => hbs.trans ?_
              have hpair := happend _ 4 (length_utf8Codepoint
                (pairCodepoint (UInt16.ofNat hi) (UInt16.ofNat lo))).1
              omega
            · refine .get fun s _ => (setPos _).bind fun _ _ => ?_
              refine (utf16Loop (left' + 1) _).weaken fun bs hbs => hbs.trans ?_
              omega
      · refine .ite (fun _ => ?_) fun _ => ?_
        · refine (utf16Loop left _).weaken fun bs hbs => hbs.trans ?_
          omega
        · refine (utf16Loop left _).weaken fun bs hbs => hbs.trans ?_
          have hunit := happend _ 3 ((length_utf8Codepoint (UInt16.ofNat hi).toNat).2
            (Nat.le_of_lt_succ (UInt16.ofNat hi).toNat_lt))
          omega

theorem checkStringLength (n unitSize : Nat) (hunit : 0 < unitSize) :
    Gives r₀ (Reader.checkStringLength n unitSize) fun ok =>
      ok = true → n ≤ min r₀.options.maxStringLength.toNat r₀.size := by
  apply of_returns (Nested.basicRules.checkStringLength n unitSize)
    (Sticky.basicRules.checkStringLength n unitSize)
  rintro B r ok r' l hr hrun rfl
  rcases Reader.checkStringLength_returns hrun with ⟨-, -, hok⟩ | ⟨hfalse, -⟩
  · refine Nat.le_min.mpr ⟨hr.options ▸ hok.limit, ?_⟩
    have hsize : r.size = r₀.size := congrArg List.length hr.data
    calc n ≤ r.remaining / unitSize := hok.present hunit
      _ ≤ r.remaining := Nat.div_le_self _ _
      _ ≤ r₀.size := hsize ▸ Nat.sub_le _ _
  · cases hfalse

theorem readUtf16String (units : Nat) : Gives r₀ (Reader.readUtf16String units)
    fun bs => bs.length ≤ r₀.longestString := by
  refine (checkStringLength units 2 (by decide)).bind fun ok hok => ?_
  refine .ite (fun _ => .pure (Nat.zero_le _)) fun htrue => ?_
  refine (sizeProduct units 2).bind fun bytes _ => (ensureBytes bytes).bind fun ok' _ => ?_
  refine .ite (fun _ => .pure (Nat.zero_le _)) fun _ => .tell _ (.get fun r _ => .tell _ ?_)
  refine (utf16Loop units []).weaken fun bs hbs => ?_
  have hunits := hok (by simpa using htrue)
  simp only [List.length_nil, Nat.zero_add] at hbs
  exact hbs.trans (Nat.mul_le_mul_left 3 hunits)

theorem readString : Gives r₀ Reader.readString fun o =>
    ∀ bs, o = some bs → bs.length ≤ r₀.longestString := by
  have hempty : ∀ bs : List UInt8, some [] = some bs → bs.length ≤ r₀.longestString := by
    rintro bs hbs
    rw [← Option.some.inj hbs]
    exact Nat.zero_le _
  refine (readRaw 4).bind fun n _ => failed.bind fun b _ => ?_
  refine .ite (fun _ => .pure hempty) fun _ => .ite (fun _ => .pure (by simp)) fun _ => ?_
  refine .ite (fun _ => .pure hempty) fun _ => .ite (fun _ => ?_) fun _ => ?_
  · refine (readUtf16String _).map fun bs hbs bs' heq => ?_
    rw [← Option.some.inj heq]
    exact hbs
  · refine (readRaw 4).bind fun _ _ => (checkStringLength _ 1 (by decide)).bind fun ok hok => ?_
    refine .ite (fun _ => .pure hempty) fun htrue => (takeBytes _).bind fun o ho => ?_
    cases o with
    | none => exact .pure hempty
    | some bs =>
        refine .tell _ (.pure fun bs' heq => ?_)
        rw [← Option.some.inj heq, ho bs rfl]
        exact (hok (by simpa using htrue)).trans (Nat.le_mul_of_pos_left _ (by decide))

/-! ## Collections -/

theorem readCollectionLength (min : Nat) : Gives r₀ (Reader.readCollectionLength min)
    fun len => len.toNat ≤ maxLength := by
  apply of_returns (Nested.basicRules.readCollectionLength min)
    (Sticky.basicRules.readCollectionLength min)
  intro B r len r' l _ hrun
  rcases Reader.readCollectionLength_returns hrun with ⟨-, -, -, hlen, -⟩ | ⟨hneg, -⟩
  · have hlt : len < 2 ^ 31 := hlen ▸ Reader.asInt32_lt _
    rw [maxLength]
    omega
  · rw [Int.toNat_of_nonpos hneg]
    exact Nat.zero_le _

theorem copy (n : Nat) : Gives r₀ (Reader.copy n) fun bs => bs.length ≤ n := by
  apply of_returns (Nested.basicRules.copy n) (Sticky.basicRules.copy n)
  intro B r bs r' l _ hrun
  obtain rfl := Out.ret.inj (congrArg Res.out hrun)
  exact List.length_take_le n _

theorem bump (n : Nat) : Gives r₀ (Reader.bump n) fun _ => True :=
  any (Nested.basicRules.bump Nested.setPos n)
    (Sticky.basicRules.bump Sticky.basicRules.setPos n)

theorem readContiguous (w count : Nat) : Gives r₀ (Reader.readContiguous w count) fun ns =>
    ns.length = count ∧ ∀ n ∈ ns, n < 256 ^ w := by
  refine .ask fun B => .ite (fun _ => ?_) fun _ => readRaws w count
  refine (sizeProduct count w).bind fun bytes _ => (copy bytes).bind fun bs _ => ?_
  exact (bump bytes).bind fun _ _ => .pure (splitWords_lt w count bs)

/-- No more numbers than an `int32_t` counts, and each one a number of the width. -/
def Numbers (bound : Nat) (ns : List Nat) : Prop :=
  ns.length ≤ maxLength ∧ ∀ n ∈ ns, n < bound

theorem numbers_nil (bound : Nat) : Numbers bound [] := ⟨Nat.zero_le _, by simp⟩

theorem readVector (w : Nat) : Gives r₀ (Reader.readVector w) (Numbers (256 ^ w)) := by
  refine (readCollectionLength w).bind fun len hlen => ?_
  refine .ite (fun _ => .pure (numbers_nil _)) fun _ => ?_
  refine (sizeProduct _ w).bind fun bytes _ => (ensureBytes bytes).bind fun ok _ => ?_
  refine .ite (fun _ => .pure (numbers_nil _)) fun _ => .get fun r _ => .tell _ (.tell _ ?_)
  exact (readContiguous w _).weaken fun ns hns => ⟨hns.1 ▸ hlen, hns.2⟩

theorem readVectorBool : Gives r₀ Reader.readVectorBool (Numbers 2) := by
  refine (readCollectionLength 1).bind fun len hlen => ?_
  refine .ite (fun _ => .pure (numbers_nil _)) fun _ => (ensureBytes _).bind fun ok _ => ?_
  refine .ite (fun _ => .pure (numbers_nil _)) fun _ => .get fun r _ => .tell _ (.tell _ ?_)
  refine (copy _).bind fun bs hbs => (bump _).bind fun _ _ => .pure ⟨?_, ?_⟩
  · rw [List.length_map]
    exact hbs.trans hlen
  · intro n hn
    obtain ⟨b, -, rfl⟩ := List.mem_map.mp hn
    split <;> decide

/-- What a sender says beyond `maxCount` is skipped. -/
theorem readArray (w : Nat) (maxCount : Int) : Gives r₀ (Reader.readArray w maxCount) fun ns =>
    ns.length ≤ maxCount.toNat ∧ ∀ n ∈ ns, n < 256 ^ w := by
  have hempty : ([] : List Nat).length ≤ maxCount.toNat ∧ ∀ n ∈ ([] : List Nat), n < 256 ^ w :=
    ⟨Nat.zero_le _, by simp⟩
  refine (readCollectionLength w).bind fun len _ => .ite (fun _ => .pure hempty) fun _ => ?_
  have hcount : (if len ≤ maxCount then len else maxCount) ≤ maxCount := by
    split
    · next h => exact h
    · exact Int.le_refl _
  refine .ite (fun _ => ?_) fun _ => (skipElements w _).bind fun _ _ => .pure hempty
  refine (sizeProduct _ w).bind fun bytes _ => (ensureBytes bytes).bind fun ok _ => ?_
  refine .ite (fun _ => .pure hempty) fun _ => (readContiguous w _).bind fun ns hns => ?_
  refine (skipElements w _).bind fun _ _ => .pure ⟨?_, hns.2⟩
  rw [hns.1]
  exact Int.toNat_le_toNat hcount

/-- The memory behind the marker of a `Nullable<T>`. -/
theorem readNullable (align size : Nat) (halign : 0 < align) :
    Gives r₀ (Reader.readNullable align size) fun o => ∀ bs, o = some bs → bs.length = size := by
  refine (takeBytes _).bind fun o ho => ?_
  cases o with
  | none => exact .pure (by simp)
  | some buffer =>
      refine .ite (fun _ => .pure (by simp)) fun _ => .pure fun bs hbs => ?_
      have hlen := ho buffer rfl
      have hfits := size_le_nullableSize halign size
      obtain rfl := Option.some.inj hbs
      simp only [List.length_take, List.length_drop]
      omega

/-- The loop of every collection reader: `J k` holds of what it built in `k` rounds. -/
theorem readElements {min : Nat} {reserve counted : Bool} {element : ReadM β} {store : α → β → α}
    {a : α} {J : Nat → α → Prop} {Q : β → Prop} (helement : Gives r₀ element Q) (hstart : J 0 a)
    (hstore : ∀ k c v, J k c → Q v → J (k + 1) (store c v)) :
    Gives r₀ (Reader.readElements min reserve counted element store a) fun c =>
      ∃ k, k ≤ maxLength ∧ J k c := by
  refine (readCollectionLength min).bind fun len hlen => ?_
  refine .ite (fun _ => .pure ⟨0, Nat.zero_le _, hstart⟩) fun _ => ?_
  have hloop : ∀ {stop : MemoryPackReader → Bool} {round : α → ReadM α},
      (∀ k c, J k c → Gives r₀ (round c) (J (k + 1))) →
      Gives r₀ (Prog.forWhile stop round len.toNat a) fun c => ∃ k, k ≤ maxLength ∧ J k c := by
    intro stop round hround
    refine (Prog.Yields.forWhile hround len.toNat 0 a hstart).weaken ?_
    rintro c ⟨k, hk, hc⟩
    exact ⟨k, (Nat.zero_add len.toNat ▸ hk).trans hlen, hc⟩
  have hround : ∀ k c, J k c → Gives r₀ (do
      let v ← element
      if counted then Prog.tell (.elements 1)
      return store c v : ReadM α) (J (k + 1)) := by
    intro k c hc
    refine helement.bind fun v hv => ?_
    cases counted with
    | true => exact .tell _ (.pure (hstore k c v hc hv))
    | false => exact .pure (hstore k c v hc hv)
  cases reserve with
  | true => exact .get fun r _ => .tell _ (hloop hround)
  | false => exact hloop hround

/-! ## Nulls and bodies -/

theorem readObjectHeader : Gives r₀ Reader.readObjectHeader fun _ => True :=
  any Nested.basicRules.readRules.readObjectHeader Sticky.basicRules.readRules.readObjectHeader

theorem nullObject {payload : ReadM Val} {Q : Val → Prop} (hnone : Q .none)
    (hpayload : Gives r₀ payload fun v => Q (.some v)) :
    Gives r₀ (Reader.nullObjectDeserialize payload) Q := by
  refine peekIsNull.bind fun b _ => .ite (fun _ => ?_) fun _ => hpayload.map fun _ h => h
  exact readByte.bind fun _ _ => .pure hnone

/-- The members of a body are read between `EnterObject` and `LeaveObject`; a body that is
too deep leaves the target alone. -/
theorem objectBody {v : Val} {members : ReadM (List Val)} {Q : Val → Prop} (hv : Q v)
    (hmembers : Gives r₀ members fun vs => Q (.seq vs)) :
    Gives r₀ (Reader.objectBody v members) Q := by
  have henter : Gives r₀ Reader.enterObject fun _ => True := by
    refine .get fun _ _ => .tell _ (.modify (fun _ h => ⟨h.options, h.data⟩) ?_)
    refine .get fun _ _ => .ite (fun _ => failWith (by decide) trivial) fun _ => .pure trivial
  refine henter.bind fun ok _ => .ite (fun _ => .pure hv) fun _ => .tell _ ?_
  refine hmembers.bind fun vs hvs => .tell _ (.modify (fun s h => ?_) (.pure hvs))
  exact ⟨by split <;> exact h.options, by split <;> exact h.data⟩

/-- The members of an object, `Q t` of each member of type `t`. A member that the sender did
not write stays as it was. -/
theorem readMembers {S : Schema} {read : Ty → Val → ReadM Val} {Q : Ty → Val → Prop}
    (count : Nat) {ts : List Ty} (index : Nat)
    (hread : ∀ t ∈ ts, ∀ v, Q t v → Gives r₀ (read t v) (Q t)) {vs : List Val}
    (hvs : List.Forall₂ Q ts vs) :
    Gives r₀ (Reader.readMembers S read count index ts vs) (List.Forall₂ Q ts) := by
  induction hvs generalizing index with
  | nil =>
      rw [Reader.readMembers]
      exact .pure .nil
  | @cons t v ts vs hv hvs ih =>
      obtain ⟨ht, hts⟩ := List.forall_mem_cons.mp hread
      have hrest : ∀ w, Q t w → Gives r₀ (do
          return w :: (← Reader.readMembers S read count (index + 1) ts vs) : ReadM (List Val))
          (List.Forall₂ Q (t :: ts)) := fun w hw =>
        (ih (index + 1) hts).map fun ws hws => .cons hw hws
      rw [Reader.readMembers]
      exact .ite (fun _ => (ht v hv).bind hrest) fun _ => .tell _ (.bind (.pure hv) hrest)

/-- A `MEMORYPACK_DEFINE` type, over what its members give. -/
theorem define {S : Schema} {fuel i : Nat} (hk : (S.decl i).kind = .define)
    {Q : Ty → Val → Prop} (hmember : ∀ t ∈ (S.decl i).members, ∀ v, Q t v →
      Gives r₀ (Reader.readTy S (Reader.readObject S fuel) t v) (Q t))
    (hinit : List.Forall₂ Q (S.decl i).members (S.decl i).init) {vs : List Val}
    (hvs : List.Forall₂ Q (S.decl i).members vs) :
    Gives r₀ (Reader.readObject S (fuel + 1) i (.seq vs)) fun w =>
      ∃ ws, w = .seq ws ∧ List.Forall₂ Q (S.decl i).members ws := by
  rw [Reader.readObject_define hk]
  refine readObjectHeader.bind fun header _ => .ite (fun _ => .pure ?_) fun _ => ?_
  · rw [Schema.init]
    exact ⟨_, rfl, hinit⟩
  · refine objectBody ⟨vs, rfl, hvs⟩ (.weaken ?_ fun ws hws => ⟨ws, rfl, hws⟩)
    exact readMembers _ 0 hmember hvs

end Gives

end MemoryPack
