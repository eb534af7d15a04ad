import MemoryPack.Lib.Utf16
import MemoryPack.Wire.RoundTrip

/-!
# Strings as text

`ReadString` hands back UTF-8 whatever the wire form was, and the `std::u16string`
formatter turns that into UTF-16. Both are compared here with the text itself, a
list of Unicode scalar values: the decoder of the UTF-16 wire form produces the
UTF-8 of the text with every unpaired surrogate replaced, while a UTF-8 payload is
copied unseen and only a well-formed one survives the transcoder.
-/

namespace MemoryPack

open Effect LittleEndian

/-- The UTF-8 form of a text. -/
def utf8 (cs : List Char) : List UInt8 := cs.flatMap String.utf8EncodeChar

/-! ## The code's code points are scalar values -/

/-- A marker in the bits above `i`, added or combined. -/
theorem or_marker {x : Nat} (k i : Nat) (h : x < 2 ^ i) :
    k <<< i ||| x = x % 2 ^ i + k * 2 ^ i := by
  rw [or_eq_add i h, Nat.mod_eq_of_lt h, Nat.add_comm]

/-- `append_utf8_codepoint` on a scalar value is its UTF-8 form. -/
theorem utf8Codepoint_toNat (c : Char) : utf8Codepoint c.toNat = String.utf8EncodeChar c := by
  have hc : c.val.toNat < 0xD800 ∨ 0xDFFF < c.val.toNat ∧ c.val.toNat < 0x110000 := c.valid
  change utf8Codepoint c.val.toNat = _
  simp only [utf8Codepoint, String.utf8EncodeChar]
  generalize c.val.toNat = n at hc ⊢
  have htail : ∀ x : Nat, 0x80 ||| x &&& 0x3F = x % 64 + 0x80 := by
    intro x
    rw [show x &&& 0x3F = x % 64 from Nat.and_two_pow_sub_one_eq_mod x 6]
    have hor := or_marker 2 6 (Nat.mod_lt x (show 0 < 2 ^ 6 by decide))
    rwa [Nat.mod_mod] at hor
  have h6 : n >>> 6 = n / 64 := Nat.shiftRight_eq_div_pow n 6
  have h12 : n >>> 12 = n / 4096 := Nat.shiftRight_eq_div_pow n 12
  have h18 : n >>> 18 = n / 262144 := Nat.shiftRight_eq_div_pow n 18
  simp only [htail, h6, h12, h18]
  split
  · rfl
  · split
    · next h2 =>
        have hlead : 0xC0 ||| n / 64 = n / 64 % 0x20 + 0xC0 :=
          or_marker 6 5 (show n / 64 < 32 by omega)
        rw [hlead]
    · split
      · next h3 =>
          have hlead : 0xE0 ||| n / 4096 = n / 4096 % 0x10 + 0xE0 :=
            or_marker 14 4 (show n / 4096 < 16 by omega)
          rw [hlead]
      · have hlead : 0xF0 ||| n / 262144 = n / 262144 % 0x08 + 0xF0 :=
          or_marker 30 3 (show n / 262144 < 8 by omega)
        rw [hlead]

/-- The units the formatter pushes for a scalar value are its UTF-16 form. -/
theorem utf16Units_toNat (c : Char) : utf16Units c.toNat = Utf16.encodeChar c := by
  have hmask : c.toNat - 0x10000 &&& 0x3FF = (c.toNat - 0x10000) % 0x400 :=
    Nat.and_two_pow_sub_one_eq_mod _ 10
  have hshift : (c.toNat - 0x10000) >>> 10 = (c.toNat - 0x10000) / 0x400 :=
    Nat.shiftRight_eq_div_pow _ 10
  rw [utf16Units, Utf16.encodeChar, hmask, hshift]
  simp only [Nat.lt_succ_iff]

theorem flatMap_utf8Codepoint (cs : List Char) :
    (cs.map Char.toNat).flatMap utf8Codepoint = utf8 cs := by
  simp only [List.flatMap_map, utf8Codepoint_toNat]
  rfl

theorem flatMap_utf16Units (cs : List Char) :
    (cs.map Char.toNat).flatMap utf16Units = Utf16.encode cs := by
  simp only [List.flatMap_map, utf16Units_toNat]
  rfl

/-- The transcoder turns the UTF-8 form of a text into its UTF-16 form. -/
theorem utf8ToUtf16_utf8 (cs : List Char) : utf8ToUtf16 (utf8 cs) = Utf16.encode cs := by
  have hlt : ∀ cp ∈ cs.map Char.toNat, cp < 0x200000 := by
    intro cp hcp
    obtain ⟨c, -, rfl⟩ := List.mem_map.mp hcp
    have hc : c.toNat < 0xD800 ∨ 0xDFFF < c.toNat ∧ c.toNat < 0x110000 := c.valid
    omega
  rw [← flatMap_utf8Codepoint, utf8ToUtf16_encode _ hlt, flatMap_utf16Units]

/-- `cs` is the text the decoder makes of `us`, with the unpaired surrogates replaced. -/
def IsText (us : List UInt16) (cs : List Char) : Prop :=
  utf16Codepoints us = cs.map Char.toNat ∧ Utf16.encode cs = Utf16.replaceUnpaired us

namespace IsText

variable {u : UInt16} {us : List UInt16} {cs : List Char}

theorem replaced (hcp : utf16Codepoints (u :: us) = 0xFFFD :: utf16Codepoints us)
    (hu : Utf16.IsHigh u ∨ Utf16.IsLow u)
    (hpair : ¬ (Utf16.IsHigh u ∧ ∃ lo, us[0]? = some lo ∧ Utf16.IsLow lo))
    (h : IsText us cs) : IsText (u :: us) ('\uFFFD' :: cs) := by
  constructor
  · rw [hcp, h.1]
    rfl
  · rw [Utf16.replaceUnpaired_cons hpair, if_pos hu, Utf16.encode_cons, h.2]
    rfl

theorem single (hh : ¬ isHighSurrogate u = true) (hl : ¬ isLowSurrogate u = true)
    (h : IsText us cs) : ∃ c, IsText (u :: us) (c :: cs) := by
  have hh' : ¬ Utf16.IsHigh u := fun hu => hh ((isHighSurrogate_iff u).mpr hu)
  have hl' : ¬ Utf16.IsLow u := fun hu => hl ((isLowSurrogate_iff u).mpr hu)
  have hvalid : u.toNat.isValidChar := by
    have hlt := u.toNat_lt
    unfold Utf16.IsHigh at hh'
    unfold Utf16.IsLow at hl'
    unfold Nat.isValidChar
    omega
  obtain ⟨c, hc⟩ : ∃ c : Char, c.toNat = u.toNat := ⟨Char.ofNatAux u.toNat hvalid, rfl⟩
  refine ⟨c, ?_, ?_⟩
  · rw [utf16Codepoints_single hh hl, h.1, List.map_cons, hc]
  · rw [Utf16.replaceUnpaired_cons fun hu => hh' hu.1, if_neg (not_or.mpr ⟨hh', hl'⟩),
      Utf16.encode_cons, h.2, ← utf16Units_toNat, hc, utf16Units_single, List.singleton_append]

theorem pair {hi lo : UInt16} (hh : isHighSurrogate hi = true) (hl : isLowSurrogate lo = true)
    (h : IsText us cs) : ∃ c, IsText (hi :: lo :: us) (c :: cs) := by
  have hh' := (isHighSurrogate_iff hi).mp hh
  have hl' := (isLowSurrogate_iff lo).mp hl
  have hvalid : (pairCodepoint hi lo).isValidChar := by
    rw [pairCodepoint_eq hi hl, Nat.isValidChar]
    omega
  obtain ⟨c, hc⟩ : ∃ c : Char, c.toNat = pairCodepoint hi lo :=
    ⟨Char.ofNatAux (pairCodepoint hi lo) hvalid, rfl⟩
  refine ⟨c, ?_, ?_⟩
  · rw [utf16Codepoints, if_pos hh]
    simp only [hl, if_true]
    rw [h.1, List.map_cons, hc]
  · rw [Utf16.replaceUnpaired_pair hh' hl', Utf16.encode_cons, h.2, ← utf16Units_toNat, hc,
      utf16Units_pair hh hl, List.cons_append, List.singleton_append]

end IsText

/-- Whatever `ReadUtf16String` decodes is a text. -/
theorem exists_isText (us : List UInt16) : ∃ cs, IsText us cs := by
  induction us using utf16Codepoints.induct with
  | case1 => exact ⟨[], rfl, rfl⟩
  | case2 hi hh =>
      have hhi := (isHighSurrogate_iff hi).mp hh
      have hnil : IsText [] [] := ⟨rfl, rfl⟩
      refine ⟨_, hnil.replaced ?_ (.inl hhi) (by simp)⟩
      simp [utf16Codepoints, hh]
  | case3 hi hh lo rest' hl ih =>
      obtain ⟨cs, ih⟩ := ih
      obtain ⟨c, h⟩ := ih.pair hh hl
      exact ⟨_, h⟩
  | case4 hi hh lo rest' hl ih =>
      obtain ⟨cs, ih⟩ := ih
      have hhi := (isHighSurrogate_iff hi).mp hh
      refine ⟨_, ih.replaced ?_ (.inl hhi) ?_⟩
      · conv_lhs => rw [utf16Codepoints, if_pos hh]
        simp only [hl, Bool.false_eq_true, if_false]
      · rintro ⟨-, lo', hlo', hlow⟩
        rw [List.getElem?_cons_zero, Option.some.injEq] at hlo'
        exact hl ((isLowSurrogate_iff lo).mpr (hlo' ▸ hlow))
  | case5 hi rest hh hl ih =>
      obtain ⟨cs, ih⟩ := ih
      refine ⟨_, ih.replaced (utf16Codepoints_low hh hl rest) (.inr ?_) ?_⟩
      · exact (isLowSurrogate_iff hi).mp hl
      · exact fun hpair => hh ((isHighSurrogate_iff hi).mpr hpair.1)
  | case6 hi rest hh hl ih =>
      obtain ⟨cs, ih⟩ := ih
      obtain ⟨c, h⟩ := ih.single hh hl
      exact ⟨_, h⟩

theorem replaceUnpaired_eq_self_iff (us : List UInt16) :
    Utf16.replaceUnpaired us = us ↔ Utf16.IsValid us := by
  constructor
  · intro h
    obtain ⟨cs, -, hcs⟩ := exists_isText us
    exact ⟨cs, hcs.trans h⟩
  · rintro ⟨cs, rfl⟩
    exact Utf16.replaceUnpaired_encode cs

/-- The UTF-8 detour of the formatter does no more than replace what is unpaired. -/
theorem utf8ToUtf16_utf16Codepoints (us : List UInt16) :
    utf8ToUtf16 ((utf16Codepoints us).flatMap utf8Codepoint) = Utf16.replaceUnpaired us := by
  obtain ⟨cs, hcp, hcs⟩ := exists_isText us
  rw [hcp, flatMap_utf8Codepoint, utf8ToUtf16_utf8, hcs]

/-! ## The UTF-16 wire form -/

theorem read_u16string (S : Schema) (v : Val) (B : Build) (r : MemoryPackReader) :
    Reader.read S .u16string v B r = Reader.u16stringDeserialize B r := by
  simp [Reader.read, Reader.readTy]

theorem Reads.u16string {B : Build} {d : Nat} {bs s : List UInt8}
    (h : Reads B d Reader.readString bs (some s)) (S : Schema) (v : Val) :
    Reads B d (Reader.read S .u16string v) bs (.units (utf8ToUtf16 s)) := by
  intro r s' hr hrest
  rw [read_u16string]
  exact h.map (fun o => Val.units (utf8ToUtf16 (o.getD []))) r s' hr hrest

/-- What `WriteStringUtf16` writes, in front of any other bytes: `ReadString` gives the
UTF-8 form of the text, `Read<std::u16string>` its UTF-16 form, and the text is the
sequence with U+FFFD for each unpaired surrogate. -/
theorem utf16_string_transcoded (S : Schema) (B B' : Build) {u : List UInt16}
    (hu : u.length ≤ 2 ^ 31 - 1) (suffix : List UInt8) (v : Val) :
    ∃ (bs : List UInt8) (cs : List Char),
      (Writer.writeStringUtf16 u B {}).out = .ret () ∧
      (Writer.writeStringUtf16 u B {}).st.error = .none ∧
      (Writer.writeStringUtf16 u B {}).st.getSpan = bs ∧
      Utf16.encode cs = Utf16.replaceUnpaired u ∧
      ByteArray.IsValidUTF8 (utf8 cs).toByteArray ∧
      (bs.length + suffix.length < B'.sizeMod →
        Prog.Returns Reader.readString B' { data := bs ++ suffix } (some (utf8 cs))
          { data := bs ++ suffix, pos := bs.length } ∧
        Prog.Returns (Reader.read S .u16string v) B' { data := bs ++ suffix }
          (.units (Utf16.replaceUnpaired u)) { data := bs ++ suffix, pos := bs.length }) ∧
      (Utf16.replaceUnpaired u = u ↔ Utf16.IsValid u) := by
  have hmax : u.length ≤ maxLength := hu
  obtain ⟨cs, hcp, hcs⟩ := exists_isText u
  have hemits := Emits.writeStringUtf16 (B := B) hmax
  have hfits : ({} : MemoryPackWriter).view.Fits (encodeUtf16 u).length := trivial
  obtain ⟨hout, hview⟩ := hemits.room {} MemoryPackWriter.inv_default hfits
  have hread : Reads B' 0 Reader.readString (encodeUtf16 u) (some (utf8 cs)) := by
    rw [← flatMap_utf8Codepoint, ← hcp]
    exact Reads.readString_utf16 hmax
  refine ⟨encodeUtf16 u, cs, hout, ?_, ?_, hcs, ⟨cs, rfl⟩, ?_, replaceUnpaired_eq_self_iff u⟩
  · rw [← MemoryPackWriter.view_error, hview]
    rfl
  · rw [← MemoryPackWriter.view_bytes, hview]
    rfl
  · intro hsize
    rw [← List.length_append] at hsize
    have hr : CanRead B' 0 { data := encodeUtf16 u ++ suffix } :=
      canRead_fresh hsize (Nat.zero_le _)
    constructor
    · obtain ⟨l, hrun⟩ := hread _ suffix hr rfl
      rw [Nat.zero_add] at hrun
      exact Prog.returns_iff.mpr ⟨l, hrun⟩
    · obtain ⟨l, hrun⟩ := hread.u16string S v _ suffix hr rfl
      rw [Nat.zero_add, utf8ToUtf16_utf8, hcs] at hrun
      exact Prog.returns_iff.mpr ⟨l, hrun⟩

theorem utf16_string_transcoded_unpaired :
    ∃ bs, (Writer.writeStringUtf16 [0xD800, 0x41] ⟨true, .little, .w64, 0⟩ {}).st.getSpan = bs ∧
      Prog.Returns (Reader.read Schema.plain .u16string (.units [])) ⟨true, .big, .w32, 0⟩
        { data := bs ++ [7] } (.units [0xFFFD, 0x41]) { data := bs ++ [7], pos := bs.length } := by
  obtain ⟨bs, cs, -, -, rfl, -, -, hread, -⟩ :=
    utf16_string_transcoded Schema.plain ⟨true, .little, .w64, 0⟩ ⟨true, .big, .w32, 0⟩
      (u := [0xD800, 0x41]) (by decide) [7] (.units [])
  exact ⟨_, rfl, (hread (by decide +kernel)).2⟩

/-! ## Both wire forms -/

/-- The length word of the string at the cursor. -/
def stringHeader (rest : List UInt8) : Int := asInt32 (leNat (rest.take 4))

/-- The string at the cursor is in UTF-8 form, with payload `p`, and passes the checks
on its length. -/
structure Utf8Payload (r : MemoryPackReader) (p : List UInt8) : Prop where
  header : stringHeader r.rest = -(p.length : Int) - 1
  nonempty : 0 < p.length
  present : 8 + p.length ≤ r.remaining
  bytes : (r.rest.drop 8).take p.length = p
  limit : p.length ≤ r.options.maxStringLength.toNat

/-- `us` accounts for every byte of the payload at the cursor: a text is written in both. -/
inductive Accounts (rest : List UInt8) : List UInt16 → Prop where
  | empty : stringHeader rest = -1 ∨ stringHeader rest = 0 → Accounts rest []
  | ofUtf16 {n : Nat} : 0 < n → stringHeader rest = n →
      Accounts rest (Utf16.replaceUnpaired (Reader.nextUnits n (rest.drop 4)))
  | ofUtf8 {cs : List Char} : stringHeader rest = -((utf8 cs).length : Int) - 1 →
      (rest.drop 8).take (utf8 cs).length = utf8 cs → Accounts rest (Utf16.encode cs)

/-- A read that returns without failure gave a well-formed string that accounts for the
payload. -/
def ReadsText (B : Build) (r : MemoryPackReader) (m : ReadM Val) : Prop :=
  ∀ w r', Prog.Returns m B r w r' → r'.error = .none →
    ∃ us, w = .units us ∧ Utf16.IsValid us ∧ Accounts r.rest us

/-- The same behind `std::optional`, where null is a header of -1. -/
def ReadsOptionalText (B : Build) (r : MemoryPackReader) (m : ReadM Val) : Prop :=
  ∀ w r', Prog.Returns m B r w r' → r'.error = .none →
    (w = .none ∧ stringHeader r.rest = -1) ∨
      ∃ us, w = .some (.units us) ∧ Utf16.IsValid us ∧ Accounts r.rest us

theorem Accounts.isValid {rest : List UInt8} {us : List UInt16} (h : Accounts rest us) :
    Utf16.IsValid us := by
  cases h with
  | empty _ => exact ⟨[], rfl⟩
  | ofUtf16 _ _ =>
      obtain ⟨cs, -, hcs⟩ := exists_isText (Reader.nextUnits _ (rest.drop 4))
      exact ⟨cs, hcs⟩
  | ofUtf8 _ _ => exact ⟨_, rfl⟩

section Forms

variable {B : Build} {r r' : MemoryPackReader} {o : Option (List UInt8)}

/-- What a `ReadString` that did not fail found at the cursor. -/
inductive FoundString (r : MemoryPackReader) : Option (List UInt8) → Prop where
  | null : stringHeader r.rest = -1 → FoundString r none
  | empty : stringHeader r.rest = 0 → FoundString r (some [])
  | utf16 {n : Nat} : 0 < n → stringHeader r.rest = n → FoundString r
      (some ((utf16Codepoints (Reader.nextUnits n (r.rest.drop 4))).flatMap utf8Codepoint))
  | utf8 {p : List UInt8} : Utf8Payload r p → FoundString r (some p)

theorem readUtf16String_returns {units : Nat} {s : List UInt8} {l : List ReadEvent}
    (he : r.error = .none) (h : Reader.readUtf16String units B r = ⟨.ret s, r', l⟩) :
    s = (utf16Codepoints (Reader.nextUnits units r.rest)).flatMap utf8Codepoint ∨
      r'.error ≠ .none := by
  by_cases hok : Reader.StringOk units 2 r
  · obtain ⟨l', hrun⟩ := Reader.readUtf16String_ok (B := B) he hok
    rw [hrun, Res.mk.injEq] at h
    exact .inl (Out.ret.inj h.1).symm
  · rw [Reader.readUtf16String] at h
    obtain ⟨ok, r₁, l₁, l₂, hcheck, hrest, -⟩ := Prog.bind_eq_ret h
    rcases Reader.checkStringLength_returns hcheck with ⟨-, -, hok'⟩ | ⟨rfl, herr⟩
    · exact absurd hok' hok
    · rw [Bool.not_false, if_pos rfl, Prog.pure_apply, Res.mk.injEq] at hrest
      exact .inr (hrest.2.1 ▸ herr)

/-- The UTF-8 branch of `ReadString`, behind both length words. -/
theorem utf8Payload_returns {n : Nat} {l : List ReadEvent}
    (h : (do
      if !(← Reader.checkStringLength n 1) then return some []
      match ← Reader.takeBytes n with
      | none => return some []
      | some bs =>
          Prog.tell (.acceptedString n 1)
          return some bs : ReadM (Option (List UInt8))) B r = ⟨.ret o, r', l⟩) :
    (r.error = .none ∧ n ≤ r.remaining ∧ n ≤ r.options.maxStringLength.toNat ∧
      o = some (r.rest.take n)) ∨ r'.error ≠ .none := by
  obtain ⟨ok, r₁, l₁, l₂, hcheck, hrest, -⟩ := Prog.bind_eq_ret h
  rcases Reader.checkStringLength_returns hcheck with ⟨rfl, rfl, hok⟩ | ⟨rfl, herr⟩
  · rw [Bool.not_true, if_neg (by decide)] at hrest
    obtain ⟨bs, r₂, l₃, l₄, htake, hend, -⟩ := Prog.bind_eq_ret hrest
    rcases Reader.takeBytes_returns htake with ⟨he, hn, rfl, rfl⟩ | ⟨rfl, herr⟩
    · simp only [Prog.bind_apply, Prog.tell_apply, Res.bind_ret, Prog.pure_apply, Res.after_mk,
        Res.mk.injEq, Out.ret.injEq] at hend
      exact .inl ⟨he, hn, hok.limit, hend.1.symm⟩
    · simp only [Prog.pure_apply, Res.mk.injEq] at hend
      exact .inr (hend.2.1 ▸ herr)
  · rw [Bool.not_false, if_pos rfl, Prog.pure_apply, Res.mk.injEq] at hrest
    exact .inr (hrest.2.1 ▸ herr)

/-- `ReadString` behind its header word, when it does not fail. -/
theorem stringPayload_returns {header : Int} {l : List ReadEvent} (he : r.error = .none)
    (h : Reads.stringPayload header B r = ⟨.ret o, r', l⟩) (he' : r'.error = .none) :
    (header = -1 ∧ o = none) ∨ (header = 0 ∧ o = some []) ∨
      (0 < header ∧ o = some
        ((utf16Codepoints (Reader.nextUnits header.toNat r.rest)).flatMap utf8Codepoint)) ∨
      ∃ n : Nat, header = -(n : Int) - 1 ∧ 0 < n ∧ 4 + n ≤ r.remaining ∧
        n ≤ r.options.maxStringLength.toNat ∧ o = some ((r.rest.drop 4).take n) := by
  have hnot : r.failed = false := by simp [MemoryPackReader.failed, he]
  rw [Reads.stringPayload] at h
  simp only [Reader.failed, Prog.bind_apply, Prog.get_apply, Res.bind_ret, Prog.pure_apply,
    Res.after_nil, hnot, Bool.false_eq_true, if_false] at h
  by_cases hnull : header = -1
  · rw [if_pos hnull, Prog.pure_apply, Res.mk.injEq] at h
    exact .inl ⟨hnull, (Out.ret.inj h.1).symm⟩
  rw [if_neg hnull] at h
  by_cases hzero : header = 0
  · rw [if_pos hzero, Prog.pure_apply, Res.mk.injEq] at h
    exact .inr (.inl ⟨hzero, (Out.ret.inj h.1).symm⟩)
  rw [if_neg hzero] at h
  by_cases hpos : header > 0
  · rw [if_pos hpos] at h
    obtain ⟨s, r₁, l₁, l₂, hunits, hend, -⟩ := Prog.bind_eq_ret h
    rw [Prog.pure_apply, Res.mk.injEq, Out.ret.injEq] at hend
    obtain ⟨rfl, rfl, -⟩ := hend
    rcases readUtf16String_returns he hunits with hs | herr
    · exact .inr (.inr (.inl ⟨hpos, congrArg some hs⟩))
    · exact absurd he' herr
  · rw [if_neg hpos] at h
    obtain ⟨_, r₁, l₁, l₂, hunused, hbytes, -⟩ := Prog.bind_eq_ret h
    rcases utf8Payload_returns hbytes with ⟨he₁, hn, hlim, ho⟩ | herr
    · rcases Reader.readRaw_returns hunused with ⟨-, h4, -, rfl⟩ | ⟨-, herr⟩
      · rw [Reader.remaining_add] at hn
        rw [Reader.rest_add] at ho
        exact .inr (.inr (.inr ⟨_, by omega, by omega, by omega, hlim, ho⟩))
      · exact absurd he₁ herr
    · exact absurd he' herr

theorem readString_returns (he : r.error = .none) (h : Prog.Returns Reader.readString B r o r')
    (he' : r'.error = .none) : FoundString r o := by
  obtain ⟨l, h⟩ := Prog.returns_iff.mp h
  rw [Reads.readString_eq] at h
  obtain ⟨word, r₁, l₁, l₂, hword, hpayload, -⟩ := Prog.bind_eq_ret h
  rcases Reader.readRaw_returns hword with ⟨-, h4, hhead, rfl⟩ | ⟨-, herr⟩
  · have hheader : asInt32 word = stringHeader r.rest := by rw [hhead, stringHeader]
    rw [hheader] at hpayload
    rcases stringPayload_returns (r := { r with pos := r.pos + 4 }) he hpayload he' with
      ⟨hh, rfl⟩ | ⟨hh, rfl⟩ | ⟨hh, rfl⟩ | ⟨n, hh, h0, hn, hlim, rfl⟩
    · exact .null hh
    · exact .empty hh
    · rw [Reader.rest_add]
      exact .utf16 (by omega) (Int.toNat_of_nonneg hh.le).symm
    · rw [Reader.remaining_add] at hn
      rw [Reader.rest_add, List.drop_drop]
      have hlen : ((r.rest.drop 8).take n).length = n := by
        rw [List.length_take, List.length_drop, CanRead.length_rest]
        omega
      refine .utf8 ⟨?_, ?_, ?_, ?_, ?_⟩ <;> rw [hlen]
      · exact hh
      · exact h0
      · omega
      · exact hlim
  · have hfailed : r₁.failed = true := by simpa [MemoryPackReader.failed] using herr
    rw [Reads.stringPayload] at hpayload
    simp only [Reader.failed, Prog.bind_apply, Prog.get_apply, Res.bind_ret, Prog.pure_apply,
      Res.after_nil, hfailed, if_true, Res.mk.injEq] at hpayload
    exact absurd (hpayload.2.1 ▸ he') herr

/-- A UTF-8 payload is handed over as it is. -/
theorem readString_utf8 {p : List UInt8} (he : r.error = .none) (h : Utf8Payload r p) :
    Prog.Returns Reader.readString B r (some p) { r with pos := r.pos + 8 + p.length } := by
  have hpresent := h.present
  have hnonempty := h.nonempty
  have hheader := h.header
  have hnot : ({ r with pos := r.pos + 4 } : MemoryPackReader).failed = false := by
    simp [MemoryPackReader.failed, he]
  have hcount : (-(-(p.length : Int) - 1) - 1).toNat = p.length := by omega
  have h4 : 4 ≤ r.remaining := by omega
  have h4' : 4 ≤ ({ r with pos := r.pos + 4 } : MemoryPackReader).remaining := by
    rw [Reader.remaining_add]
    omega
  have hrest : ({ r with pos := r.pos + 4 + 4 } : MemoryPackReader).rest = r.rest.drop 8 :=
    Reader.rest_add r 8
  have hrem : ({ r with pos := r.pos + 4 + 4 } : MemoryPackReader).remaining = r.remaining - 8 :=
    Reader.remaining_add r 8
  have hok : Reader.StringOk p.length 1 { r with pos := r.pos + 4 + 4 } :=
    ⟨h.limit, fun _ => by rw [hrem, Nat.div_one]; omega⟩
  have htake : p.length ≤ ({ r with pos := r.pos + 4 + 4 } : MemoryPackReader).remaining := by
    omega
  have hword : Prog.Returns (Reader.readRaw 4) B r (leNat (r.rest.take 4))
      { r with pos := r.pos + 4 } := Prog.returns_iff.mpr ⟨_, Reader.readRaw_ok he h4⟩
  rw [Reads.readString_eq]
  refine hword.bind ?_
  change Prog.Returns (Reads.stringPayload (stringHeader r.rest)) B _ _ _
  rw [hheader, Reads.stringPayload]
  simp only [Prog.Returns, Reader.failed, Prog.bind_apply, Prog.get_apply, Res.bind_ret,
    Prog.pure_apply, Res.after_nil, hnot, Bool.false_eq_true, if_false]
  rw [if_neg (by omega), if_neg (by omega), if_neg (by omega), hcount]
  simp only [Prog.bind_apply, Reader.readRaw_ok (B := B) (r := { r with pos := r.pos + 4 }) he h4',
    Res.bind_ret, Reader.checkStringLength_ok hok, Bool.not_true, Bool.false_eq_true, if_false,
    Reader.takeBytes_ok (B := B) (r := { r with pos := r.pos + 4 + 4 }) he htake,
    Prog.tell_apply, Prog.pure_apply, Res.after_mk, hrest, h.bytes]
  exact ⟨trivial, trivial⟩

theorem isValidUTF8_iff (p : List UInt8) :
    ByteArray.IsValidUTF8 p.toByteArray ↔ ∃ cs, p = utf8 cs := by
  constructor
  · rintro ⟨cs, hcs⟩
    refine ⟨cs, ?_⟩
    have hlist := congrArg (fun b => b.data.toList) hcs
    rwa [List.utf8Encode, List.toList_data_toByteArray, List.toList_data_toByteArray] at hlist
  · rintro ⟨cs, rfl⟩
    exact ⟨cs, rfl⟩

/-- When a UTF-8 payload is well formed, the formatter's string accounts for whatever
`ReadString` found. -/
theorem FoundString.accounts (h : FoundString r o)
    (hutf8 : ∀ p, Utf8Payload r p → ByteArray.IsValidUTF8 p.toByteArray) :
    Accounts r.rest (utf8ToUtf16 (o.getD [])) := by
  cases h with
  | null hh => exact .empty (.inl hh)
  | empty hh => exact .empty (.inr hh)
  | utf16 hn hh =>
      rw [Option.getD_some, utf8ToUtf16_utf16Codepoints]
      exact .ofUtf16 hn hh
  | utf8 hp =>
      obtain ⟨cs, rfl⟩ := (isValidUTF8_iff _).mp (hutf8 _ hp)
      rw [Option.getD_some, utf8ToUtf16_utf8]
      exact .ofUtf8 hp.header hp.bytes

/-- A UTF-8 payload that is accounted for is well formed. -/
theorem Accounts.isValidUTF8 {p : List UInt8} {us : List UInt16} (h : Accounts r.rest us)
    (hp : Utf8Payload r p) : ByteArray.IsValidUTF8 p.toByteArray := by
  have hheader := hp.header
  have hnonempty := hp.nonempty
  cases h with
  | empty hh => omega
  | ofUtf16 hn hh => omega
  | @ofUtf8 cs hh hbytes =>
      have hlen : (utf8 cs).length = p.length := by omega
      rw [hlen, hp.bytes] at hbytes
      exact (isValidUTF8_iff p).mpr ⟨cs, hbytes⟩

theorem returns_u16string {w : Val} :
    Prog.Returns Reader.u16stringDeserialize B r w r' ↔
      ∃ o, Prog.Returns Reader.readString B r o r' ∧ w = .units (utf8ToUtf16 (o.getD [])) := by
  rw [Reader.u16stringDeserialize, Prog.returns_bind]
  constructor
  · rintro ⟨o, s, hs, hw, rfl⟩
    exact ⟨o, hs, (Out.ret.inj hw).symm⟩
  · rintro ⟨o, hs, rfl⟩
    exact ⟨o, r', hs, Prog.returns_pure⟩

/-- The string at the cursor is null. -/
def NullString (r : MemoryPackReader) : Prop := 4 ≤ r.remaining ∧ stringHeader r.rest = -1

instance (r : MemoryPackReader) : Decidable (NullString r) := inferInstanceAs (Decidable (_ ∧ _))

theorem nullCollectionTest_returns (he : r.error = .none) :
    Prog.Returns Reader.nullCollectionTest B r (decide (NullString r)) r := by
  by_cases h4 : 4 ≤ r.remaining
  · have hdec : decide (NullString r) =
        decide (asInt32 (leNat (r.rest.take 4)) = nullCollection) :=
      decide_eq_decide.mpr ⟨fun h => h.2, fun h => ⟨h4, h⟩⟩
    rw [hdec]
    exact Prog.returns_iff.mpr ⟨_, Reader.nullCollectionTest_ok he h4⟩
  · have hdec : decide (NullString r) = false := decide_eq_false fun h => h4 h.1
    rw [hdec]
    exact Prog.returns_iff.mpr ⟨_, Reader.nullCollectionTest_short h4⟩

theorem returns_optional_u16string {S : Schema} {v w : Val} (he : r.error = .none) :
    Prog.Returns (Reader.read S (.optional .u16string) v) B r w r' ↔
      (NullString r ∧ w = .none ∧ r' = { r with pos := r.pos + 4 }) ∨
      (¬ NullString r ∧ ∃ x, w = .some x ∧ Prog.Returns Reader.u16stringDeserialize B r x r') := by
  have hread : Reader.read S (.optional .u16string) v B r =
      Reader.nullCollectionDeserialize Reader.u16stringDeserialize B r := by
    simp [Reader.read, Reader.readTy, Reader.optionalDeserialize, wireNullEncoding]
  rw [Prog.Returns, hread, Reader.nullCollectionDeserialize_eq]
  constructor
  · intro h
    obtain ⟨b, s, htest, hrest⟩ := Prog.returns_bind.mp h
    obtain ⟨rfl, rfl⟩ := htest.unique (nullCollectionTest_returns he)
    by_cases hnull : NullString s
    · rw [decide_eq_true hnull, if_pos rfl] at hrest
      obtain ⟨u, s', hadv, hw, rfl⟩ := Prog.returns_bind.mp hrest
      have hok := Prog.returns_iff.mpr ⟨_, Reader.advance_ok (B := B) he hnull.1⟩
      obtain ⟨-, rfl⟩ := hadv.unique hok
      exact .inl ⟨hnull, (Out.ret.inj hw).symm, rfl⟩
    · rw [decide_eq_false hnull, if_neg (by decide)] at hrest
      obtain ⟨x, s', hx, hw, rfl⟩ := Prog.returns_bind.mp hrest
      exact .inr ⟨hnull, x, (Out.ret.inj hw).symm, hx⟩
  · intro h
    refine (nullCollectionTest_returns he).bind ?_
    rcases h with ⟨hnull, rfl, rfl⟩ | ⟨hnull, x, rfl, hx⟩
    · rw [decide_eq_true hnull, if_pos rfl]
      refine (Prog.returns_iff.mpr ⟨_, Reader.advance_ok (B := B) he hnull.1⟩).bind ?_
      exact Prog.returns_pure
    · rw [decide_eq_false hnull, if_neg (by decide)]
      exact hx.bind Prog.returns_pure

end Forms

section Formatter

variable (S : Schema) (B : Build) {r : MemoryPackReader} (v : Val)

theorem readsText_iff (he : r.error = .none) : ReadsText B r (Reader.read S .u16string v) ↔
    ∀ p, Utf8Payload r p → ByteArray.IsValidUTF8 p.toByteArray := by
  have hread : ∀ w r', Prog.Returns (Reader.read S .u16string v) B r w r' ↔
      Prog.Returns Reader.u16stringDeserialize B r w r' := by
    intro w r'
    rw [Prog.Returns, read_u16string]
    rfl
  constructor
  · intro h p hp
    have hrun := returns_u16string.mpr ⟨_, readString_utf8 (B := B) he hp, rfl⟩
    obtain ⟨us, -, -, hus⟩ := h _ _ ((hread _ _).mpr hrun) he
    exact hus.isValidUTF8 hp
  · intro h w r' hrun he'
    obtain ⟨o, ho, rfl⟩ := returns_u16string.mp ((hread w r').mp hrun)
    have hus := (readString_returns he ho he').accounts h
    exact ⟨_, rfl, hus.isValid, hus⟩

theorem readsOptionalText_iff (he : r.error = .none) :
    ReadsOptionalText B r (Reader.read S (.optional .u16string) v) ↔
      ∀ p, Utf8Payload r p → ByteArray.IsValidUTF8 p.toByteArray := by
  constructor
  · intro h p hp
    have hheader := hp.header
    have hnonempty := hp.nonempty
    have hnull : ¬ NullString r := by
      rintro ⟨-, hh⟩
      omega
    have hrun := returns_u16string.mpr ⟨_, readString_utf8 (B := B) he hp, rfl⟩
    have hopt := (returns_optional_u16string (S := S) (v := v) he).mpr
      (.inr ⟨hnull, _, rfl, hrun⟩)
    rcases h _ _ hopt he with ⟨-, hh⟩ | ⟨us, -, -, hus⟩
    · omega
    · exact hus.isValidUTF8 hp
  · intro h w r' hrun he'
    rcases (returns_optional_u16string he).mp hrun with ⟨hnull, rfl, -⟩ | ⟨-, x, rfl, hx⟩
    · exact .inl ⟨rfl, hnull.2⟩
    · obtain ⟨o, ho, rfl⟩ := returns_u16string.mp hx
      have hus := (readString_returns he ho he').accounts h
      exact .inr ⟨_, rfl, hus.isValid, hus⟩

/-- `Read<std::u16string>` from any reader that has not failed reports an error or gives a
well-formed string that accounts for the payload, exactly when a payload in UTF-8 form
is well-formed UTF-8; and the same behind `std::optional`. -/
theorem u16string_readsText_iff (he : r.error = .none) :
    (ReadsText B r (Reader.read S .u16string v) ↔
      ∀ p, Utf8Payload r p → ByteArray.IsValidUTF8 p.toByteArray) ∧
    (ReadsOptionalText B r (Reader.read S (.optional .u16string) v) ↔
      ∀ p, Utf8Payload r p → ByteArray.IsValidUTF8 p.toByteArray) :=
  ⟨readsText_iff S B v he, readsOptionalText_iff S B v he⟩

end Formatter

/-- One euro sign, in UTF-8 form. -/
def euroString : MemoryPackReader :=
  { data := [0xFC, 0xFF, 0xFF, 0xFF, 1, 0, 0, 0, 0xE2, 0x82, 0xAC] }

theorem u16string_readsText_euro :
    ReadsText ⟨true, .little, .w64, 0⟩ euroString
      (Reader.read Schema.plain .u16string (.units [])) := by
  refine (u16string_readsText_iff Schema.plain _ (r := euroString) _ rfl).1.mpr ?_
  intro p hp
  have hheader := hp.header
  have hword : stringHeader euroString.rest = -4 := by decide
  have hlen : p.length = 3 := by omega
  have hbytes := hp.bytes
  rw [hlen] at hbytes
  exact (isValidUTF8_iff p).mpr ⟨['€'], hbytes.symm.trans (by decide)⟩

/-- Three bytes that would encode U+D800. -/
def surrogateString : MemoryPackReader :=
  { data := [0xFC, 0xFF, 0xFF, 0xFF, 1, 0, 0, 0, 0xED, 0xA0, 0x80] }

/-- They are read without failure, as a lone surrogate. -/
theorem surrogate_encoding_is_read :
    Prog.Returns (Reader.read Schema.plain .u16string (.units [])) ⟨true, .little, .w64, 0⟩
      surrogateString (.units [0xD800]) { surrogateString with pos := 11 } ∧
    ¬ ReadsText ⟨true, .little, .w64, 0⟩ surrogateString
      (Reader.read Schema.plain .u16string (.units [])) := by
  have hrun : Prog.Returns (Reader.read Schema.plain .u16string (.units []))
      ⟨true, .little, .w64, 0⟩ surrogateString (.units [0xD800])
      { surrogateString with pos := 11 } := ⟨rfl, rfl⟩
  refine ⟨hrun, fun h => ?_⟩
  obtain ⟨us, hus, hvalid, -⟩ := h _ _ hrun rfl
  rw [← Val.units.inj hus, ← replaceUnpaired_eq_self_iff] at hvalid
  exact absurd hvalid (by decide)

end MemoryPack
