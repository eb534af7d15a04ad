import MemoryPack.Wire.RoundTrip

/-!
# Null and present

`std::optional`, `std::unique_ptr` and `std::shared_ptr` tell null from present on the
wire. Where the null is a length of -1 or a flag, no value can be taken for it. Where it
is the single byte 255, the reader looks at one byte and nothing else: a present value
whose encoding begins with that byte is read as null, and the rest of it is left on the
wire. This file says exactly when that happens.
-/

namespace MemoryPack

open Effect

/-- `w` is `std::optional<T>`, `std::unique_ptr<T>` or `std::shared_ptr<T>`. -/
inductive Ty.Wraps (t : Ty) : Ty → Prop
  | optional : Ty.Wraps t (.optional t)
  | pointer (p : PtrKind) : Ty.Wraps t (.pointer p t)

/-- The null of the type is the single byte 255. -/
def Ty.oneByteNull : Ty → Bool
  | .optional t => wireNullEncoding t = .object
  | .pointer _ _ => true
  | _ => false

/-- A value comes back from what `Serialize` writes, behind which anything may stand,
and exactly that is consumed. -/
def RoundTrips (S : Schema) (B : Build) (t : Ty) (v : Val) : Prop :=
  ∃ bs, serialize S B t v = .ret bs ∧ ∀ s : List UInt8, (bs ++ s).length < B.sizeMod →
    ∃ l, deserialize S t B { data := bs ++ s } =
      ⟨.ret v, { data := bs ++ s, pos := bs.length }, l⟩

variable {S : Schema} {B : Build} {t w : Ty} {x : Val}

theorem roundTrips_of_recoverable (hB : B.Supports S t) (hS : S.Shaped) {v : Val}
    (hty : Encodable S t v) (hrec : Recoverable S t v) (hnest : nest S t v ≤ 256) :
    RoundTrips S B t v :=
  ⟨encode S t v, serialize_eq_encode hB hty, fun _ hsize =>
    deserialize_encode hB hS hty hrec hnest hsize⟩

/-! ## The encoding behind a wrapper -/

theorem Ty.Wraps.encodable (hw : t.Wraps w) (hx : Encodable S t x) : Encodable S w (.some x) := by
  cases hw <;> rw [Encodable] <;> exact hx

theorem Ty.Wraps.nest_eq (hw : t.Wraps w) : nest S w (.some x) = nest S t x := by
  cases hw <;> rw [nest]

/-- Where null is one byte, a present value is written as it is without the wrapper. -/
theorem Ty.Wraps.encode_eq (hw : t.Wraps w) (hone : w.oneByteNull = true) :
    encode S w (.some x) = encode S t x := by
  cases hw with
  | optional =>
      have hk : wireNullEncoding t = .object := by simpa [Ty.oneByteNull] using hone
      rw [encode, hk]
  | pointer p => rw [encode]

/-- A present value is recoverable when its payload is and is not taken for null. -/
theorem Ty.Wraps.recoverable (hw : t.Wraps w) (hx : Recoverable S t x)
    (hnull : ¬ (w.oneByteNull = true ∧ StartsNull (encode S t x))) :
    Recoverable S w (.some x) := by
  cases hw with
  | optional =>
      rw [Recoverable]
      refine ⟨fun _ => hx, fun hk hstarts => hnull ⟨?_, hstarts⟩⟩
      simpa [Ty.oneByteNull] using hk
  | pointer p =>
      rw [Recoverable]
      exact ⟨hx, fun hstarts => hnull ⟨rfl, hstarts⟩⟩

/-! ## What the null tests decide -/

/-- The payload's result is wrapped, so it is not null. -/
theorem map_some_ne_none {payload : ReadM Val} {r st : MemoryPackReader} {l : List ReadEvent} :
    (do return Val.some (← payload) : ReadM Val) B r ≠ ⟨.ret .none, st, l⟩ := by
  intro h
  obtain ⟨a, r', l₁, l₂, -, hret, -⟩ := Prog.bind_eq_ret h
  have hout : Out.ret (Val.some a) = Out.ret Val.none := congrArg Res.out hret
  cases hout

theorem nullObjectDeserialize_present {payload : ReadM Val} {r st : MemoryPackReader}
    {l : List ReadEvent} {bs s : List UInt8} (hrest : r.rest = bs ++ s) (hne : bs ≠ [])
    (hnull : ¬ StartsNull bs) :
    Reader.nullObjectDeserialize payload B r ≠ ⟨.ret .none, st, l⟩ := by
  rcases bs with _ | ⟨b, bs⟩
  · exact absurd rfl hne
  have hpeek := Reader.peekIsNull_ok (B := B) (r := r)
    (Nat.le_trans (Nat.le_add_left 1 bs.length) (CanRead.le_remaining hrest))
  have hfalse : decide (r.rest.headD 0 = nullObject) = false := by
    rw [hrest]
    exact decide_eq_false fun hb => hnull (congrArg some hb)
  rw [hfalse] at hpeek
  intro h
  obtain ⟨b', r', l₁, l₂, hfirst, hsecond, -⟩ := Prog.bind_eq_ret h
  rw [hpeek] at hfirst
  obtain ⟨rfl, rfl, rfl⟩ : false = b' ∧ r = r' ∧ _ := by simpa using hfirst
  exact map_some_ne_none hsecond

theorem nullCollectionDeserialize_present {payload : ReadM Val} {r st : MemoryPackReader}
    {l : List ReadEvent} {d n : Nat} {bs s : List UInt8} (hr : CanRead B d r)
    (hrest : r.rest = le32 (n : Nat) ++ bs ++ s) (hn : n ≤ maxLength) :
    Reader.nullCollectionDeserialize payload B r ≠ ⟨.ret .none, st, l⟩ := by
  obtain ⟨l', htest⟩ := Reads.nullCollectionTest_length hn hr hrest
  rw [Reader.nullCollectionDeserialize_eq]
  intro h
  obtain ⟨b, r', l₁, l₂, hfirst, hsecond, -⟩ := Prog.bind_eq_ret h
  rw [htest] at hfirst
  obtain ⟨rfl, rfl, rfl⟩ : false = b ∧ r = r' ∧ _ := by simpa using hfirst
  exact map_some_ne_none hsecond

theorem optionalDeserialize_collection {payload : ReadM Val}
    (hk : wireNullEncoding t = .collection) :
    Reader.optionalDeserialize t payload = Reader.nullCollectionDeserialize payload := by
  cases t <;> simp [wireNullEncoding] at hk <;> rfl

theorem optionalDeserialize_object {payload : ReadM Val} (hk : wireNullEncoding t = .object) :
    Reader.optionalDeserialize t payload = Reader.nullObjectDeserialize payload := by
  cases t <;> simp [wireNullEncoding] at hk <;> rfl

/-- A present value that does not begin with a one-byte null is not read as null, even
where its payload does not come back. -/
theorem deserialize_present (hS : S.Shaped) (hw : t.Wraps w) (hB : B.Supports S w)
    (hx : Encodable S t x) (hnest : nest S t x ≤ 256)
    (hsize : (encode S w (.some x)).length < B.sizeMod)
    (hnull : ¬ (w.oneByteNull = true ∧ StartsNull (encode S t x))) (st : MemoryPackReader)
    (l : List ReadEvent) :
    deserialize S w B { data := encode S w (.some x) } ≠ ⟨.ret .none, st, l⟩ := by
  have hr : CanRead B 0 { data := encode S w (.some x) } := canRead_fresh hsize (Nat.zero_le _)
  -- the payloads that are recoverable whatever they hold
  have hback : Recoverable S w (.some x) →
      deserialize S w B { data := encode S w (.some x) } ≠ ⟨.ret .none, st, l⟩ := by
    intro hrec h
    have hnest' : nest S w (.some x) ≤ 256 := by rwa [hw.nest_eq]
    have hsize' : (encode S w (.some x) ++ []).length < B.sizeMod := by simpa using hsize
    obtain ⟨l', hrun⟩ := deserialize_encode hB hS (hw.encodable hx) hrec hnest' hsize'
    rw [List.append_nil, h] at hrun
    have hout : Out.ret Val.none = Out.ret (Val.some x) := congrArg Res.out hrun
    cases hout
  cases hw with
  | pointer p =>
      have hrest : encode S (.pointer p t) (.some x) = encode S t x ++ [] := by
        rw [encode, List.append_nil]
      exact nullObjectDeserialize_present hrest (encode_ne_nil hx) fun h => hnull ⟨rfl, h⟩
  | optional =>
      cases hk : wireNullEncoding t with
      | nullableValue =>
          apply hback
          rw [Recoverable]
          exact ⟨fun h => absurd hk h, fun h => by simp [hk] at h⟩
      | string =>
          apply hback
          rw [Recoverable]
          refine ⟨fun _ => ?_, fun h => by simp [hk] at h⟩
          cases t <;> simp [wireNullEncoding] at hk <;> simp [Recoverable]
      | collection =>
          obtain ⟨n, bs, hn, heq⟩ := Reads.encode_counted hx (.inl hk)
          have hrest : encode S (.optional t) (.some x) = le32 (n : Nat) ++ bs ++ [] := by
            rw [encode, hk, List.append_nil]
            exact heq
          show Reader.optionalDeserialize t _ B _ ≠ _
          rw [optionalDeserialize_collection hk]
          exact nullCollectionDeserialize_present hr hrest hn
      | object =>
          have hone : (Ty.optional t).oneByteNull = true := by simp [Ty.oneByteNull, hk]
          have hrest : encode S (.optional t) (.some x) = encode S t x ++ [] := by
            rw [Ty.Wraps.optional.encode_eq hone, List.append_nil]
          show Reader.optionalDeserialize t _ B _ ≠ _
          rw [optionalDeserialize_object hk]
          exact nullObjectDeserialize_present hrest (encode_ne_nil hx) fun h => hnull ⟨hone, h⟩

/-- Where null is one byte, nothing but that byte is looked at. -/
theorem Reads.read_oneByteNull {d : Nat} (hw : t.Wraps w) (hone : w.oneByteNull = true)
    (v₀ : Val) : Reads B d (Reader.read S w v₀) [nullObject] .none := by
  intro r s hr hrest
  cases hw with
  | pointer p => exact Reads.nullObjectDeserialize_none r s hr hrest
  | optional =>
      have hk : wireNullEncoding t = .object := by simpa [Ty.oneByteNull] using hone
      show ∃ l, Reader.optionalDeserialize t _ B _ = _
      rw [optionalDeserialize_object hk]
      exact Reads.nullObjectDeserialize_none r s hr hrest

theorem startsNull_iff {bs : List UInt8} : StartsNull bs ↔ ∃ cs, bs = [nullObject] ++ cs := by
  cases bs with
  | nil => simp [StartsNull]
  | cons b bs => simp [StartsNull]

/-- A present value that begins with the one-byte null is read as null, from its first
byte. -/
theorem deserialize_taken (hw : t.Wraps w) (hsize : (encode S w (.some x)).length < B.sizeMod)
    (hone : w.oneByteNull = true) (hstarts : StartsNull (encode S t x)) :
    ∃ l, deserialize S w B { data := encode S w (.some x) } =
      ⟨.ret .none, { data := encode S w (.some x), pos := 1 }, l⟩ := by
  have hr : CanRead B 0 { data := encode S w (.some x) } := canRead_fresh hsize (Nat.zero_le _)
  obtain ⟨bs, hbs⟩ := startsNull_iff.mp hstarts
  rw [← hw.encode_eq hone] at hbs
  exact Reads.read_oneByteNull hw hone _ _ _ hr hbs

/-- For every wrapper of every type: null comes back as null. A present value is read as
null exactly when null is one byte and the encoding of the value begins with it; and a
present value whose payload is recoverable comes back, with exactly its bytes consumed,
exactly when that is not so. -/
theorem nullable_roundTrips_iff (hS : S.Shaped) (hw : t.Wraps w) (hB : B.Supports S w) :
    RoundTrips S B w .none ∧
    ∀ x, Encodable S t x → nest S t x ≤ 256 → (encode S w (.some x)).length < B.sizeMod →
      ((∃ bs st l, serialize S B w (.some x) = .ret bs ∧
          deserialize S w B { data := bs } = ⟨.ret .none, st, l⟩) ↔
        w.oneByteNull = true ∧ StartsNull (encode S t x)) ∧
      (Recoverable S t x →
        (RoundTrips S B w (.some x) ↔
          ¬ (w.oneByteNull = true ∧ StartsNull (encode S t x)))) := by
  constructor
  · apply roundTrips_of_recoverable hB hS
    · cases hw <;> simp [Encodable]
    · cases hw <;> simp [Recoverable]
    · cases hw <;> simp [nest]
  intro x hx hnest hsize
  have hwrite : serialize S B w (.some x) = .ret (encode S w (.some x)) :=
    serialize_eq_encode hB (hw.encodable hx)
  constructor
  · constructor
    · rintro ⟨bs, st, l, hbs, hrun⟩
      rw [hwrite] at hbs
      obtain rfl := Out.ret.inj hbs
      by_contra hnull
      exact deserialize_present hS hw hB hx hnest hsize hnull st l hrun
    · rintro ⟨hone, hstarts⟩
      obtain ⟨l, hrun⟩ := deserialize_taken hw hsize hone hstarts
      exact ⟨_, _, l, hwrite, hrun⟩
  · intro hrec
    constructor
    · rintro ⟨bs, hbs, hback⟩ ⟨hone, hstarts⟩
      rw [hwrite] at hbs
      obtain rfl := Out.ret.inj hbs
      obtain ⟨l, hrun⟩ := deserialize_taken hw hsize hone hstarts
      obtain ⟨l', hrun'⟩ := hback [] (by simpa using hsize)
      rw [List.append_nil, hrun] at hrun'
      have hout : Out.ret Val.none = Out.ret (Val.some x) := congrArg Res.out hrun'
      cases hout
    · intro hnull
      refine roundTrips_of_recoverable hB hS (hw.encodable hx) (hw.recoverable hrec hnull) ?_
      rwa [hw.nest_eq]

/-- A `Guid` whose first byte is 1, behind a `std::optional`. -/
theorem nullable_roundTrips_guid :
    RoundTrips .plain ⟨true, .little, .w64, 0⟩ (.optional (.dotNet .guid))
      (.some (.seq [.scalar 1, .scalar 0, .scalar 0, .bytes [0, 0, 0, 0, 0, 0, 0, 0]])) := by
  obtain ⟨-, h⟩ := nullable_roundTrips_iff (B := ⟨true, .little, .w64, 0⟩) Schema.plain_shaped
    (Ty.Wraps.optional (t := .dotNet .guid)) (.inl rfl)
  refine ((h _ ?_ (by decide) (by decide)).2 ?_).mpr (by decide)
  · simp [Encodable, DotNet.Holds]
  · simp [Recoverable]

/-- A `Guid` whose first byte is 255: it is written as it is and read back as null, and
fifteen of its bytes are left over. -/
theorem guid_read_as_null :
    (let res := serialize .plain ⟨true, .little, .w64, 0⟩ (.optional (.dotNet .guid))
      (.some (.seq [.scalar 0xFF, .scalar 0, .scalar 0, .bytes [0, 0, 0, 0, 0, 0, 0, 0]]))
     res = .ret [0xFF, 0, 0, 0, 0, 0, 0, 0, 0, 0, 0, 0, 0, 0, 0, 0]) ∧
    (let res := deserialize .plain (.optional (.dotNet .guid)) ⟨true, .little, .w64, 0⟩
      { data := [0xFF, 0, 0, 0, 0, 0, 0, 0, 0, 0, 0, 0, 0, 0, 0, 0] }
     res.out = .ret .none ∧ res.st.pos = 1 ∧ res.st.error = .none) := by
  refine ⟨rfl, rfl, rfl, rfl⟩

end MemoryPack
