import MemoryPack.Reader.Narrowing
import MemoryPack.Wire.Containment
import MemoryPack.Wire.RoundTrip

/-!
# Inputs that stop too early

A decode that succeeds on the beginning of an encoding would succeed on the whole of it and
on whatever comes behind, with the cursor where it was or at the end of the input. Behind
the whole encoding the cursor stands at neither of the two. So every truncated value is
reported, whatever the limits, and values follow each other in a stream without any
framing: a stream that is cut off gives the values it holds in full and then an error.
-/

namespace MemoryPack

open Effect

section Truncated

variable {S : Schema} {B : Build} {t : Ty} {out v w : Val} {r r' : MemoryPackReader}

/-- Limits that no value exceeds. -/
def widestOptions : ReaderOptions := ⟨0xFFFFFFFF, 0xFFFFFFFF, 0xFFFFFFFF⟩

theorem narrower_widest (o : ReaderOptions) : o.Narrower widestOptions :=
  have hmax : ∀ n : UInt32, n ≤ 0xFFFFFFFF := fun n =>
    UInt32.le_iff_toNat_le.mpr (Nat.le_of_lt_succ n.toNat_lt)
  ⟨hmax _, hmax _, hmax _⟩

theorem canRead_widest {d : Nat} (he : r.error = .none) (hpos : r.pos ≤ r.size)
    (hsize : r.size < B.sizeMod) (hoptions : r.options = widestOptions)
    (hd : r.depth.toNat + d < 2 ^ 32) : CanRead B d r := by
  have hmax : (0xFFFFFFFF : UInt32).toNat = 2 ^ 32 - 1 := by decide
  have hlimit : maxLength ≤ (0xFFFFFFFF : UInt32).toNat := by decide
  refine ⟨he, hpos, hsize, ?_, ?_, ?_⟩ <;> rw [hoptions]
  · exact hlimit
  · exact hlimit
  · rw [widestOptions, hmax]
    exact Nat.le_pred_of_lt hd

/-- A decode that succeeds succeeds under the widest limits too. -/
theorem read_widest (hB : B.exceptions = true) (he : r.error = .none)
    (hrun : Prog.Returns (Reader.read S t out) B r w r') :
    ∃ r₁, Prog.Returns (Reader.read S t out) B (r.under widestOptions) w r₁ := by
  have hnarrow := Narrowing.read S t out B (r.under widestOptions) hB he
    (narrower_widest r.options)
  have hunder : (r.under widestOptions).under r.options = r := rfl
  rw [hunder] at hnarrow
  by_cases hall : ∀ e ∈ (Reader.read S t out B (r.under widestOptions)).log, e.Passes r.options
  · have hout := congrArg Res.out (hnarrow.within hall)
    exact ⟨_, hout.symm.trans hrun.1, rfl⟩
  · -- what does not pass would have been stopped
    have hthrow := hnarrow.beyond (by simpa using hall)
    exact absurd (hthrow.symm.trans hrun.1) (by simp)

/-- Where a decode of the beginning of an input succeeds, it leaves the cursor in that
beginning or at the end of the whole input. -/
theorem read_prefix (hB : B.exceptions = true) (he : r.error = .none) (hpos : r.pos ≤ r.size)
    (hsize : r.size < B.sizeMod) (hfit : TablesFit S B r.size)
    (hrun : Prog.Returns (Reader.read S t out) B r w r') (s : List UInt8) :
    ∃ r₁, Prog.Returns (Reader.read S t out) B { r with data := r.data ++ s } w r₁ ∧
      (r₁.pos ≤ r.size ∨ r₁.pos = r.size + s.length) := by
  have hextends : Extends r.pos r.data (r.data ++ s) := by
    refine ⟨?_, fun i _ hi => List.getElem?_append_left hi⟩
    rw [List.length_append]
    exact Nat.le_add_right _ _
  obtain ⟨-, r₁, hrun₁, hnear⟩ := read_follows hB hextends hpos hsize hfit he hrun
  refine ⟨r₁, hrun₁, ?_⟩
  cases hnear with
  | aligned h =>
      left
      rw [h.eq]
      exact h.le_length
  | ended heq _ _ _ =>
      right
      rw [heq]
      exact List.length_append

/-- The exception build. -/
theorem truncated_throwing (hB : B.exceptions = true) (hsupports : B.Supports S t)
    (hS : S.Shaped) (hv : Encodable S t v) (hrec : Recoverable S t v) (hout : Shaped S t out)
    (he : r.error = .none) (hpos : r.pos ≤ r.size) (hnest : r.depth.toNat + nest S t v < 2 ^ 32)
    (hsize : r.pos + (encode S t v).length + 1 < B.sizeMod) (hfit : TablesFit S B r.size)
    {k : Nat} (hk : k < (encode S t v).length) (hrest : r.rest = (encode S t v).take k) :
    ¬ Prog.Returns (Reader.read S t out) B r w r' := by
  intro hrun
  obtain ⟨r₁, hwide⟩ := read_widest hB he hrun
  have hlen : r.size - r.pos = k := by
    have hcut := congrArg List.length hrest
    rwa [CanRead.length_rest, List.length_take_of_le hk.le] at hcut
  have hsizes : (r.under widestOptions).size = r.size := rfl
  -- one byte more than the encoding, so that its end is not the end of the input
  set s := (encode S t v).drop k ++ [0] with hs
  have hslen : s.length = (encode S t v).length - k + 1 := by
    rw [hs, List.length_append, List.length_drop, List.length_singleton]
  obtain ⟨r₂, hrun₂, hcursor⟩ := read_prefix (r := r.under widestOptions) hB he hpos
    (show r.size < B.sizeMod by omega) hfit hwide s
  set whole : MemoryPackReader :=
    { r.under widestOptions with data := (r.under widestOptions).data ++ s } with hwhole
  have hdata : whole.rest = encode S t v ++ [0] := by
    show (r.data ++ s).drop r.pos = _
    rw [List.drop_append_of_le_length hpos, ← MemoryPackReader.rest, hrest, hs,
      ← List.append_assoc, List.take_append_drop]
  have hwholeSize : whole.size = r.size + s.length := List.length_append
  have hwholePos : whole.pos = r.pos := rfl
  have hcan : CanRead B (nest S t v) whole :=
    canRead_widest he (by omega) (by omega) rfl hnest
  obtain ⟨l, hread⟩ := Reads.read hsupports hS hout hv hrec whole [0] hcan hdata
  have hend : r₂.pos = r.pos + (encode S t v).length := by
    rw [← hrun₂.2, hread, ← hwholePos]
  omega

/-- Whatever the limits and the build: no decode of a truncated value succeeds. Without
`VersionTolerant` types it ends with an error, the same in both builds. -/
theorem truncated_reported (hsupports : B.Supports S t) (hS : S.Shaped) (hv : Encodable S t v)
    (hrec : Recoverable S t v) (hout : Shaped S t out) (he : r.error = .none)
    (hpos : r.pos ≤ r.size) (hnest : r.depth.toNat + nest S t v < 2 ^ 32)
    (hsize : r.pos + (encode S t v).length + 1 < B.sizeMod) (hfit : TablesFit S B r.size)
    {k : Nat} (hk : k < (encode S t v).length) (hrest : r.rest = (encode S t v).take k) :
    (∀ w, ¬ Decodes S B t r out w) ∧
    (S.NoVersionTolerant → ∃ c, c ≠ .none ∧
      (Reader.read S t out B.throwing r).out = .throw c ∧
      (Reader.read S t out B.quiet r).st.error = c) := by
  have hnone : ∀ {w r'}, ¬ Prog.Returns (Reader.read S t out) B.throwing r w r' := fun {w r'} =>
    truncated_throwing (B := B.throwing) rfl hsupports hS hv hrec hout he hpos hnest hsize hfit
      hk hrest
  constructor
  · intro w hdecodes
    obtain ⟨r', hrun, -⟩ := (decodes_throwing_iff he).mpr hdecodes
    exact hnone hrun
  · intro hordinary
    rcases read_builds_cases hordinary B t out he hpos with
      ⟨w, r', l, -, hrun, -⟩ | ⟨c, r', l, w, r'', l', hc, -, herror, hthrow, hquiet⟩
    · exact absurd (Prog.returns_iff.mpr ⟨l, hrun⟩) hnone
    · refine ⟨c, hc, ?_, ?_⟩
      · rw [hthrow]
      · rw [hquiet]
        exact herror

/-- `std::string("ab")` -/
def twoLetters : Val := .bytes [0x61, 0x62]

/-- The second letter did not arrive. -/
theorem truncated_reported_twoLetters :
    ∃ c, c ≠ .none ∧ (Reader.read .plain .string (.bytes []) ⟨true, .little, .w64, 0⟩
      { data := (encode .plain .string twoLetters).take 9 }).out = .throw c := by
  have hv : Encodable .plain .string twoLetters := by
    simp [twoLetters, Encodable, maxLength]
  have hrec : Recoverable .plain .string twoLetters := by
    simp [twoLetters, Recoverable]
  have hplain : Schema.plain.NoVersionTolerant := fun i => by simp [Schema.plain]
  have hinit : Shaped .plain .string (.bytes []) := by simp [Shaped]
  obtain ⟨-, hreported⟩ := truncated_reported (B := ⟨true, .little, .w64, 0⟩)
    (r := { data := (encode .plain .string twoLetters).take 9 }) (k := 9) (.inl rfl)
    Schema.plain_shaped hv hrec hinit rfl (Nat.zero_le _) (by decide) (by decide)
    (.inl hplain) (by decide) rfl
  obtain ⟨c, hc, hthrow, -⟩ := hreported hplain
  exact ⟨c, hc, hthrow⟩

end Truncated

/-! ## Streams of values -/

section Stream

variable {S : Schema} {B : Build}

/-- `Read<T>()` for one type after the other. -/
def readEach (S : Schema) : List Ty → ReadM (List Val)
  | [] => return []
  | t :: ts => do
      let v ← Reader.read S t (S.init t)
      return v :: (← readEach S ts)

/-- The bytes of some values, one after the other. -/
def stream (S : Schema) (ms : List (Ty × Val)) : List UInt8 :=
  ms.flatMap fun m => encode S m.1 m.2

/-- What `Write` accepts and `Read` gives back, under default limits. -/
structure Carried (S : Schema) (B : Build) (m : Ty × Val) : Prop where
  supports : B.Supports S m.1
  encodable : Encodable S m.1 m.2
  recoverable : Recoverable S m.1 m.2
  nest_le : nest S m.1 m.2 ≤ 256

theorem Unfailed.readEach (S : Schema) : ∀ ts : List Ty, Unfailed (readEach S ts)
  | [] => .pure []
  | t :: ts => .bind (.read S t _) fun _ => .bind (readEach S ts) fun _ => .pure _

/-- By induction on the values, with the cut measured from the cursor. -/
theorem readEach_iff (hB : B.exceptions = true) (hS : S.Shaped) {ms : List (Ty × Val)}
    (hms : ∀ m ∈ ms, Carried S B m) :
    ∀ {n k : Nat} {r : MemoryPackReader}, n ≤ ms.length → CanRead B 256 r →
      r.pos + (stream S ms).length + 1 < B.sizeMod → TablesFit S B r.size →
      r.rest = (stream S ms).take k → ∀ ws,
        (∃ r', Prog.Returns (readEach S ((ms.take n).map Prod.fst)) B r ws r') ↔
          ws = (ms.take n).map Prod.snd ∧ (stream S (ms.take n)).length ≤ k := by
  induction ms with
  | nil =>
      intro n k r _ _ _ _ _ ws
      rw [List.take_nil]
      constructor
      · rintro ⟨r', hret⟩
        exact ⟨(Out.ret.inj hret.1).symm, Nat.zero_le k⟩
      · rintro ⟨rfl, -⟩
        exact ⟨r, Prog.returns_pure⟩
  | cons m ms ih =>
      intro n k r hn hr hsize hfit hrest ws
      obtain ⟨t, v⟩ := m
      obtain ⟨hm, hms⟩ := List.forall_mem_cons.mp hms
      cases n with
      | zero =>
          rw [List.take_zero]
          constructor
          · rintro ⟨r', hret⟩
            exact ⟨(Out.ret.inj hret.1).symm, Nat.zero_le k⟩
          · rintro ⟨rfl, -⟩
            exact ⟨r, Prog.returns_pure⟩
      | succ n =>
          have hstream : ∀ us : List (Ty × Val),
              stream S ((t, v) :: us) = encode S t v ++ stream S us := fun us => rfl
          rw [hstream] at hsize hrest
          rw [List.length_append] at hsize
          rw [List.take_succ_cons, List.map_cons, List.map_cons, hstream, List.length_append]
          have hread := Reads.read hm.supports hS (hS.init t) hm.encodable hm.recoverable
          by_cases hk : k < (encode S t v).length
          · -- the first value is cut off
            rw [List.take_append_of_le_length hk.le] at hrest
            have hdepth : r.depth.toNat + nest S t v < 2 ^ 32 := by
              have hlimit := r.options.maxDepth.toNat_lt
              have hnest : nest S t v ≤ 256 := hm.nest_le
              have hd := hr.depth
              omega
            have hone : r.pos + (encode S t v).length + 1 < B.sizeMod := by omega
            refine iff_of_false ?_ fun h => by omega
            rintro ⟨r', hret⟩
            obtain ⟨w, r₁, hfirst, -⟩ := Prog.returns_bind.mp hret
            exact truncated_throwing hB hm.supports hS hm.encodable hm.recoverable (hS.init t)
              hr.error hr.pos_le hdepth hone hfit hk hrest hfirst
          · rw [Nat.not_lt] at hk
            rw [List.take_append, List.take_of_length_le hk] at hrest
            obtain ⟨l, hrun⟩ := hread r _ (hr.shallow hm.nest_le) hrest
            have hmove := hr.move hrest
            have hnext := ih hms (Nat.le_of_succ_le_succ hn) hmove
              (show r.pos + (encode S t v).length + (stream S ms).length + 1 < B.sizeMod by omega)
              hfit (CanRead.rest_move hrest)
            have hfirst : Prog.Returns (Reader.read S t (S.init t)) B r v
                { r with pos := r.pos + (encode S t v).length } :=
              Prog.returns_iff.mpr ⟨l, hrun⟩
            constructor
            · rintro ⟨r', hret⟩
              obtain ⟨w, r₁, hone, hothers⟩ := Prog.returns_bind.mp hret
              obtain ⟨rfl, rfl⟩ := hfirst.unique hone
              obtain ⟨us, r₂, hus, hlast⟩ := Prog.returns_bind.mp hothers
              obtain ⟨rfl, hlen⟩ := (hnext us).mp ⟨r₂, hus⟩
              exact ⟨(Out.ret.inj hlast.1).symm, by omega⟩
            · rintro ⟨rfl, hlen⟩
              obtain ⟨r₂, hus⟩ := (hnext _).mpr ⟨rfl, by omega⟩
              exact ⟨r₂, hfirst.bind (hus.bind Prog.returns_pure)⟩

/-- In both builds a stream that is cut off behind `k` bytes gives the values it holds in
full, and the read of the first one it does not hold in full fails. -/
theorem cut_stream_read (hS : S.Shaped) {ms : List (Ty × Val)} (hms : ∀ m ∈ ms, Carried S B m)
    {n k : Nat} (hn : n ≤ ms.length) (hsize : (stream S ms).length + 1 < B.sizeMod)
    (hfit : TablesFit S B (stream S ms).length) (ws : List Val) :
    (∃ r', Prog.Returns (readEach S ((ms.take n).map Prod.fst)) B
        { data := (stream S ms).take k } ws r' ∧ r'.error = .none) ↔
      ws = (ms.take n).map Prod.snd ∧ (stream S (ms.take n)).length ≤ k := by
  have hlen : ((stream S ms).take k).length ≤ (stream S ms).length := by
    rw [List.length_take]
    exact Nat.min_le_right _ _
  rw [(Unfailed.readEach S _).returns_iff rfl]
  have hfresh : CanRead B.throwing 256 { data := (stream S ms).take k } :=
    canRead_fresh (show _ < B.sizeMod by omega) (Nat.le_refl 256)
  have hstart : (0 : Nat) + (stream S ms).length + 1 < B.sizeMod := by omega
  exact readEach_iff (B := B.throwing) rfl hS (fun m hm => ⟨(hms m hm).supports, (hms m hm).encodable,
    (hms m hm).recoverable, (hms m hm).nest_le⟩) hn hfresh hstart
    (hfit.imp_right fun h => Nat.le_trans (Nat.add_le_add_right hlen _) h) rfl ws

/-- A name and a number, the number without its last byte. -/
theorem cut_stream_read_name :
    (∃ r', Prog.Returns (readEach .plain [.string]) ⟨false, .little, .w32, 0⟩
      { data := (stream .plain [(.string, twoLetters),
        (.scalar (.int true .w4), .scalar 7)]).take 13 } [twoLetters] r' ∧ r'.error = .none) ∧
    ¬ ∃ ws r', Prog.Returns (readEach .plain [.string, .scalar (.int true .w4)])
      ⟨false, .little, .w32, 0⟩ { data := (stream .plain [(.string, twoLetters),
        (.scalar (.int true .w4), .scalar 7)]).take 13 } ws r' ∧ r'.error = .none := by
  have hms : ∀ m ∈ [(Ty.string, twoLetters), (.scalar (.int true .w4), .scalar 7)],
      Carried .plain ⟨false, .little, .w32, 0⟩ m := by
    intro m hm
    simp only [List.mem_cons, List.not_mem_nil, or_false] at hm
    rcases hm with rfl | rfl
    · exact ⟨.inl rfl, by simp [twoLetters, Encodable, maxLength],
        by simp [twoLetters, Recoverable], by decide⟩
    · exact ⟨.inl rfl, by simp [Encodable, Scalar.Holds, Scalar.size, Scalar.width, Width.bytes],
        by simp [Recoverable], by decide⟩
  have hread := fun (n : Nat) (hn : n ≤ 2) => cut_stream_read Schema.plain_shaped hms (n := n)
    (k := 13) hn (by decide) (.inl fun i => by simp [Schema.plain])
  constructor
  · exact (hread 1 (by decide) [twoLetters]).mpr ⟨rfl, by decide⟩
  · rintro ⟨ws, hws⟩
    obtain ⟨-, hlen⟩ := (hread 2 (by decide) ws).mp hws
    exact absurd hlen (by decide)

end Stream

end MemoryPack
