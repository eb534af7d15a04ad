import MemoryPack.Core.DotNet
import MemoryPack.Wire.RoundTrip

/-!
# The text and the wire form of `Guid`

`Parse` reads eleven groups of digits at fixed positions. Each group is a slice of the
text, and reading a slice and printing it are inverse up to case (`formatHex_hexValue`,
`hexValue_formatHex`). The text as a whole is its slices with hyphens between them
(`text_split`), so `ToString` after `Parse` gives back the text in lower case.
-/

namespace MemoryPack.Guid

open LittleEndian

/-! ## Digits -/

def IsHex (c : UInt8) : Prop := 0 ≤ hex c

instance : DecidablePred IsHex := fun c => inferInstanceAs (Decidable (0 ≤ hex c))

/-- ASCII lower case. -/
def toLower (c : UInt8) : UInt8 := if 0x41 ≤ c ∧ c ≤ 0x5A then c + 0x20 else c

theorem hex_lt (c : UInt8) : (hex c).toNat < 16 :=
  forall_byte (P := fun c => (hex c).toNat < 16) (by decide +kernel) c

theorem hexDigit_hex (c : UInt8) : IsHex c → hexDigit (hex c).toNat = toLower c :=
  forall_byte (P := fun c => IsHex c → hexDigit (hex c).toNat = toLower c) (by decide +kernel) c

theorem hex_hexDigit : ∀ n < 16, hex (hexDigit n) = n := by decide

theorem toLower_charMinus : toLower charMinus = charMinus := by decide

/-- The number that digits stand for, behind the digits read before. -/
def hexFold (v : Nat) (cs : List UInt8) : Nat := cs.foldl (fun v c => v * 16 + (hex c).toNat) v

def hexValue (cs : List UInt8) : Nat := hexFold 0 cs

theorem hexFold_concat (v : Nat) (cs : List UInt8) (c : UInt8) :
    hexFold v (cs ++ [c]) = hexFold v cs * 16 + (hex c).toNat := by
  rw [hexFold, List.foldl_append]
  rfl

theorem hexFold_lt (cs : List UInt8) (v : Nat) :
    hexFold v cs < (v + 1) * 16 ^ cs.length := by
  induction cs generalizing v with
  | nil => simp [hexFold]
  | cons c cs ih =>
    have hd := hex_lt c
    calc hexFold v (c :: cs) < (v * 16 + (hex c).toNat + 1) * 16 ^ cs.length := ih _
      _ ≤ ((v + 1) * 16) * 16 ^ cs.length := Nat.mul_le_mul_right _ (by omega)
      _ = (v + 1) * 16 ^ (c :: cs).length := by
          rw [List.length_cons, Nat.pow_succ, Nat.mul_assoc, Nat.mul_comm 16]

theorem hexValue_lt (cs : List UInt8) : hexValue cs < 16 ^ cs.length := by
  have h := hexFold_lt cs 0
  rwa [Nat.zero_add, Nat.one_mul] at h

@[simp] theorem length_formatHex (k n : Nat) : (formatHex k n).length = k := by
  induction k generalizing n with
  | zero => rfl
  | succ k ih => rw [formatHex, List.length_append, ih, List.length_singleton]

theorem isHex_formatHex (k n : Nat) : ∀ c ∈ formatHex k n, IsHex c := by
  induction k generalizing n with
  | zero => simp [formatHex]
  | succ k ih =>
    intro c hc
    rcases List.mem_append.mp hc with h | h
    · exact ih _ c h
    · rw [List.mem_singleton.mp h, IsHex, hex_hexDigit _ (Nat.mod_lt _ (by decide))]
      exact Int.natCast_nonneg _

theorem hexValue_formatHex {k n : Nat} (h : n < 16 ^ k) : hexValue (formatHex k n) = n := by
  induction k generalizing n with
  | zero =>
    rw [Nat.pow_zero] at h
    exact (Nat.lt_one_iff.mp h).symm
  | succ k ih =>
    have hdiv : n / 16 < 16 ^ k := by
      rw [Nat.pow_succ] at h
      exact Nat.div_lt_of_lt_mul (by rwa [Nat.mul_comm])
    rw [hexValue, formatHex, hexFold_concat, ← hexValue, ih hdiv,
      hex_hexDigit _ (Nat.mod_lt _ (by decide)), Int.toNat_natCast]
    omega

/-- Digits that are read and printed come back in lower case. -/
theorem formatHex_hexValue (cs : List UInt8) (h : ∀ c ∈ cs, IsHex c) :
    formatHex cs.length (hexValue cs) = cs.map toLower := by
  induction cs using List.reverseRecOn with
  | nil => rfl
  | append_singleton cs c ih =>
    have hcs : ∀ c' ∈ cs, IsHex c' := fun c' hc' => h c' (List.mem_append_left _ hc')
    have hd := hex_lt c
    have hdiv : (hexValue cs * 16 + (hex c).toNat) / 16 = hexValue cs := by omega
    have hmod : (hexValue cs * 16 + (hex c).toNat) % 16 = (hex c).toNat := by omega
    rw [List.length_append, List.length_singleton, formatHex, hexValue, hexFold_concat, ← hexValue,
      hdiv, hmod, ih hcs, hexDigit_hex c (h c (by simp)), List.map_append]
    rfl

/-! ## Slices -/

def slice (text : List UInt8) (pos n : Nat) : List UInt8 := (text.drop pos).take n

theorem length_slice {text : List UInt8} {pos n : Nat} (h : pos + n ≤ text.length) :
    (slice text pos n).length = n := by
  rw [slice, List.length_take, List.length_drop]
  omega

theorem slice_succ {text : List UInt8} {pos n : Nat} (h : pos < text.length) :
    slice text pos (n + 1) = text.getD pos 0 :: slice text (pos + 1) n := by
  rw [slice, List.drop_eq_getElem_cons h, List.take_succ_cons, List.getD_eq_getElem?_getD,
    List.getElem?_eq_getElem h]
  rfl

theorem slice_append (pre cs post : List UInt8) :
    slice (pre ++ (cs ++ post)) pre.length cs.length = cs := by
  rw [slice, List.drop_left, List.take_left]

/-- `readHex` fails at the first character that is no digit. -/
theorem readHexLoop_spec {text : List UInt8} {digits pos : Nat} {v : UInt64}
    (hpos : pos + digits ≤ text.length) (hv : (v.toNat + 1) * 16 ^ digits ≤ 2 ^ 64) :
    ((readHexLoop text pos digits v).isSome ↔ ∀ c ∈ slice text pos digits, IsHex c) ∧
      ∀ w ∈ readHexLoop text pos digits v, w.toNat = hexFold v.toNat (slice text pos digits) := by
  induction digits generalizing pos v with
  | zero =>
    refine ⟨by simp [readHexLoop, slice], fun w hw => ?_⟩
    rw [← Option.some.inj hw]
    rfl
  | succ digits ih =>
    rw [slice_succ (by omega)]
    have hd := hex_lt (text.getD pos 0)
    by_cases hneg : hex (text.getD pos 0) < 0
    · rw [readHexLoop, if_pos hneg]
      refine ⟨iff_of_false (by simp) fun h => ?_, by simp⟩
      exact absurd (h _ (List.mem_cons_self ..)) (not_le.mpr hneg)
    · have hbound : (v.toNat + 1) * 16 ≤ 2 ^ 64 := by
        refine Nat.le_trans ?_ hv
        rw [Nat.pow_succ', ← Nat.mul_assoc]
        exact Nat.le_mul_of_pos_right _ (Nat.pow_pos (by decide))
      have hnext : ((v <<< 4) ||| UInt64.ofNat (hex (text.getD pos 0)).toNat).toNat =
          v.toNat * 16 + (hex (text.getD pos 0)).toNat := by
        rw [UInt64.toNat_or, UInt64.toNat_shiftLeft,
          UInt64.toNat_ofNat_of_lt' (Nat.lt_trans hd (by decide))]
        show (v.toNat <<< 4 % 2 ^ 64) ||| _ = _
        rw [Nat.mod_eq_of_lt (by rw [Nat.shiftLeft_eq]; omega),
          ← Nat.shiftLeft_add_eq_or_of_lt (i := 4) hd, Nat.shiftLeft_eq]
      have hv' : (v.toNat * 16 + (hex (text.getD pos 0)).toNat + 1) * 16 ^ digits ≤ 2 ^ 64 := by
        rw [Nat.pow_succ', ← Nat.mul_assoc] at hv
        refine Nat.le_trans (Nat.mul_le_mul_right _ ?_) hv
        omega
      obtain ⟨hsome, hval⟩ := @ih (pos + 1) _ (by omega) (by rwa [hnext])
      rw [readHexLoop, if_neg hneg]
      refine ⟨?_, ?_⟩
      · rw [hsome, List.forall_mem_cons]
        exact (and_iff_right (not_lt.mp hneg)).symm
      · intro w hw
        rw [hval w hw, hnext]
        rfl

section Groups

variable {text : List UInt8} {pos digits : Nat}

/-- Eight digits fit a `uint64_t`. -/
theorem readHex_spec (hpos : pos + digits ≤ text.length) (hd : digits ≤ 8) :
    ((readHex text pos digits).isSome ↔ ∀ c ∈ slice text pos digits, IsHex c) ∧
      ∀ w ∈ readHex text pos digits, w.toNat = hexValue (slice text pos digits) := by
  refine readHexLoop_spec hpos ?_
  have hpow : 16 ^ digits ≤ 16 ^ 8 := Nat.pow_le_pow_right (by decide) hd
  calc (0 + 1) * 16 ^ digits ≤ 1 * 16 ^ 8 := Nat.mul_le_mul_left _ hpow
    _ ≤ 2 ^ 64 := by decide

theorem readHex_isSome (hpos : pos + digits ≤ text.length) (hd : digits ≤ 8) :
    (readHex text pos digits).isSome ↔ ∀ c ∈ slice text pos digits, IsHex c :=
  (readHex_spec hpos hd).1

theorem toNat_readHex (hpos : pos + digits ≤ text.length) (hd : digits ≤ 8) {w : UInt64}
    (h : readHex text pos digits = some w) : w.toNat = hexValue (slice text pos digits) :=
  (readHex_spec hpos hd).2 w h

/-- A group that is read and printed. `n` is the number in its field. -/
theorem formatHex_readHex (hpos : pos + digits ≤ text.length) (hd : digits ≤ 8) {w : UInt64}
    (h : readHex text pos digits = some w) {n : Nat} (hn : w.toNat % 16 ^ digits = n) :
    formatHex digits n = (slice text pos digits).map toLower := by
  have hhex := (readHex_isSome hpos hd).mp (Option.isSome_of_mem h)
  have hlen := length_slice hpos
  have hlt := hexValue_lt (slice text pos digits)
  rw [hlen] at hlt
  rw [toNat_readHex hpos hd h, Nat.mod_eq_of_lt hlt] at hn
  rw [← hn, ← formatHex_hexValue _ hhex, hlen]

/-- A number that is printed and read. -/
theorem readHex_formatHex (digits : Nat) {n : Nat} (hd : digits ≤ 8) (hn : n < 16 ^ digits)
    (pre post : List UInt8) :
    ∃ w, readHex (pre ++ (formatHex digits n ++ post)) pre.length digits = some w ∧
      w.toNat = n := by
  have hpos : pre.length + digits ≤ (pre ++ (formatHex digits n ++ post)).length := by
    simp only [List.length_append, length_formatHex]
    omega
  have hslice : slice (pre ++ (formatHex digits n ++ post)) pre.length digits =
      formatHex digits n := by
    have h := slice_append pre (formatHex digits n) post
    rwa [length_formatHex] at h
  have hsome := (readHex_isSome hpos hd).mpr (by rw [hslice]; exact isHex_formatHex digits n)
  obtain ⟨w, hw⟩ := Option.isSome_iff_exists.mp hsome
  refine ⟨w, hw, ?_⟩
  rw [toNat_readHex hpos hd hw, hslice, hexValue_formatHex hn]

theorem slice_add (text : List UInt8) (pos n m : Nat) :
    slice text pos (n + m) = slice text pos n ++ slice text (pos + n) m := by
  rw [slice, List.take_add, List.drop_drop]
  rfl

/-- The text of some bytes. -/
def formatBytes (bs : List UInt8) : List UInt8 := bs.flatMap fun b => formatHex 2 b.toNat

theorem readHexBytes_isSome {count : Nat} (hpos : pos + 2 * count ≤ text.length) :
    (readHexBytes text pos count).isSome ↔ ∀ c ∈ slice text pos (2 * count), IsHex c := by
  induction count generalizing pos with
  | zero => simp [readHexBytes, slice]
  | succ count ih =>
    have hfirst : (readHex text pos 2).isSome ↔ _ := readHex_isSome (by omega) (by decide)
    have hrest := @ih (pos + 2) (by omega)
    rw [show 2 * (count + 1) = 2 + 2 * count by omega, slice_add, List.forall_mem_append,
      ← hfirst, ← hrest, readHexBytes]
    cases readHex text pos 2 with
    | none => simp
    | some v => cases readHexBytes text (pos + 2) count <;> simp

theorem formatBytes_readHexBytes {count : Nat} {bs : List UInt8}
    (hpos : pos + 2 * count ≤ text.length) (h : readHexBytes text pos count = some bs) :
    formatBytes bs = (slice text pos (2 * count)).map toLower := by
  induction count generalizing pos bs with
  | zero =>
    rw [← Option.some.inj h]
    rfl
  | succ count ih =>
    simp only [readHexBytes, Option.bind_eq_bind, Option.bind_eq_some_iff] at h
    obtain ⟨v, hv, vs, hvs, heq⟩ := h
    rw [← Option.some.inj heq, show 2 * (count + 1) = 2 + 2 * count by omega, slice_add,
      List.map_append, ← ih (by omega) hvs]
    exact congrArg (· ++ formatBytes vs)
      (formatHex_readHex (by omega) (by decide) hv (UInt64.toNat_toUInt8 v).symm)

theorem readHexBytes_formatBytes (bs pre post : List UInt8) :
    readHexBytes (pre ++ (formatBytes bs ++ post)) pre.length bs.length = some bs := by
  induction bs generalizing pre with
  | nil => rfl
  | cons b bs ih =>
    obtain ⟨w, hw, hval⟩ := readHex_formatHex 2 (by decide) b.toNat_lt pre
      (formatBytes bs ++ post)
    have hrest := ih (pre ++ formatHex 2 b.toNat)
    have hsplit : pre ++ (formatBytes (b :: bs) ++ post) =
        pre ++ (formatHex 2 b.toNat ++ (formatBytes bs ++ post)) := by
      rw [formatBytes, List.flatMap_cons, List.append_assoc]
      rfl
    have hbyte : w.toUInt8 = b := by
      rw [← UInt8.toNat_inj, UInt64.toNat_toUInt8, hval, Nat.mod_eq_of_lt b.toNat_lt]
    rw [List.append_assoc, List.length_append, length_formatHex] at hrest
    rw [hsplit, List.length_cons, readHexBytes, hw]
    show (readHexBytes _ (pre.length + 2) bs.length).bind _ = _
    rw [hrest, hbyte]
    rfl

end Groups

/-! ## Parse and ToString -/

/-- 36 characters, hyphens at four positions and digits everywhere else. -/
def WellFormed (text : List UInt8) : Prop :=
  text.length = 36 ∧ ∀ i < 36,
    if i = 8 ∨ i = 13 ∨ i = 18 ∨ i = 23 then text.getD i 0 = charMinus
    else IsHex (text.getD i 0)

def Hyphens (text : List UInt8) : Prop :=
  text.getD 8 0 = charMinus ∧ text.getD 13 0 = charMinus ∧ text.getD 18 0 = charMinus ∧
    text.getD 23 0 = charMinus

/-- What `Parse` reads on its way to a result, group by group. -/
structure Reads (text : List UInt8) (g : Guid) : Prop where
  length : text.length = 36
  hyphens : Hyphens text
  data1 : ∃ v, readHex text 0 8 = some v ∧ g.data1 = v.toUInt32
  data2 : ∃ v, readHex text 9 4 = some v ∧ g.data2 = v.toUInt16
  data3 : ∃ v, readHex text 14 4 = some v ∧ g.data3 = v.toUInt16
  data4 : ∃ b0 b1 bs, readHex text 19 2 = some b0 ∧ readHex text 21 2 = some b1 ∧
    readHexBytes text 24 6 = some bs ∧ g.data4 = b0.toUInt8 :: b1.toUInt8 :: bs

theorem parse_eq_some_iff {text : List UInt8} {g : Guid} :
    parse text = some g ↔ Reads text g := by
  unfold parse
  constructor
  · intro h
    split at h
    · cases h
    case isFalse hlen =>
      split at h
      · cases h
      case isFalse hhyph =>
        simp only [not_or, not_not] at hlen hhyph
        split at h
        case h_1 v1 v2 v3 b0 b1 bs h1 h2 h3 h4 h5 h6 =>
          obtain rfl := Option.some.inj h
          exact ⟨hlen, hhyph, ⟨v1, h1, rfl⟩, ⟨v2, h2, rfl⟩, ⟨v3, h3, rfl⟩,
            ⟨b0, b1, bs, h4, h5, h6, rfl⟩⟩
        · cases h
  · rintro ⟨hlen, hhyph, ⟨v1, h1, hd1⟩, ⟨v2, h2, hd2⟩, ⟨v3, h3, hd3⟩,
      ⟨b0, b1, bs, h4, h5, h6, hd4⟩⟩
    rw [if_neg (not_not.mpr hlen), if_neg (by simpa only [not_or, not_not] using! hhyph)]
    split
    case h_1 h1' h2' h3' h4' h5' h6' =>
      rw [h1] at h1'
      rw [h2] at h2'
      rw [h3] at h3'
      rw [h4] at h4'
      rw [h5] at h5'
      rw [h6] at h6'
      obtain ⟨d1, d2, d3, d4, hl⟩ := g
      simp only at hd1 hd2 hd3 hd4
      simp only [Option.some.injEq] at h1' h2' h3' h4' h5' h6'
      simp only [hd1, hd2, hd3, hd4, h1', h2', h3', h4', h5', h6']
    case h_2 hnone =>
      exact absurd h6 (hnone v1 v2 v3 b0 b1 bs h1 h2 h3 h4 h5)

/-- The text is its groups with the hyphens between them. -/
theorem text_split {text : List UInt8} (hlen : text.length = 36) :
    text = slice text 0 8 ++ [text.getD 8 0] ++ slice text 9 4 ++ [text.getD 13 0] ++
      slice text 14 4 ++ [text.getD 18 0] ++ slice text 19 4 ++ [text.getD 23 0] ++
      slice text 24 12 := by
  have hall : slice text 0 36 = text := by
    rw [slice, List.drop_zero, ← hlen, List.take_length]
  have hgroup : ∀ {pos n : Nat} (m : Nat), pos + n < 36 → slice text pos (n + (m + 1)) =
      slice text pos n ++ [text.getD (pos + n) 0] ++ slice text (pos + n + 1) m := by
    intro pos n m h
    rw [slice_add, slice_succ (by omega), List.append_assoc]
    rfl
  have h1 : slice text 0 36 = slice text 0 8 ++ [text.getD 8 0] ++ slice text 9 27 :=
    hgroup 27 (by decide)
  have h2 : slice text 9 27 = slice text 9 4 ++ [text.getD 13 0] ++ slice text 14 22 :=
    hgroup 22 (by decide)
  have h3 : slice text 14 22 = slice text 14 4 ++ [text.getD 18 0] ++ slice text 19 17 :=
    hgroup 17 (by decide)
  have h4 : slice text 19 17 = slice text 19 4 ++ [text.getD 23 0] ++ slice text 24 12 :=
    hgroup 12 (by decide)
  simp only [h2, h3, h4, hall, List.append_assoc] at h1
  simpa only [List.append_assoc] using h1

/-- What `Parse` accepts is printed back in lower case. -/
theorem Reads.toString_eq {text : List UInt8} {g : Guid} (h : Reads text g) :
    g.toString = text.map toLower := by
  have hlen := h.length
  obtain ⟨v1, h1, hd1⟩ := h.data1
  obtain ⟨v2, h2, hd2⟩ := h.data2
  obtain ⟨v3, h3, hd3⟩ := h.data3
  obtain ⟨b0, b1, bs, h4, h5, h6, hd4⟩ := h.data4
  obtain ⟨hh1, hh2, hh3, hh4⟩ := h.hyphens
  have ht1 := formatHex_readHex (by omega) (by decide) h1 (UInt64.toNat_toUInt32 v1).symm
  have ht2 := formatHex_readHex (by omega) (by decide) h2 (UInt64.toNat_toUInt16 v2).symm
  have ht3 := formatHex_readHex (by omega) (by decide) h3 (UInt64.toNat_toUInt16 v3).symm
  have ht4 := formatHex_readHex (by omega) (by decide) h4 (UInt64.toNat_toUInt8 b0).symm
  have ht5 := formatHex_readHex (by omega) (by decide) h5 (UInt64.toNat_toUInt8 b1).symm
  have ht6 := formatBytes_readHexBytes (by omega) h6
  have hpair : slice text 19 4 = slice text 19 2 ++ slice text 21 2 := slice_add text 19 2 2
  have hmid : (g.data4.take 2).flatMap (fun b => formatHex 2 b.toNat) =
      (slice text 19 4).map toLower := by
    rw [hd4, hpair, List.map_append, ← ht4, ← ht5]
    simp
  have hend : (g.data4.drop 2).flatMap (fun b => formatHex 2 b.toNat) =
      (slice text 24 12).map toLower := by
    rw [hd4]
    exact ht6
  rw [text_split hlen, toString, hd1, hd2, hd3, hmid, hend, ht1, ht2, ht3, hh1, hh2, hh3, hh4]
  simp only [List.map_append, List.map_cons, List.map_nil, toLower_charMinus]

theorem parse_toString (g : Guid) : parse g.toString = some g := by
  obtain ⟨d1, d2, d3, d4, hlen⟩ := g
  obtain ⟨b0, d4, rfl⟩ := List.exists_of_length_succ d4 hlen
  obtain ⟨b1, bs, rfl⟩ := List.exists_of_length_succ d4 (Nat.succ.inj hlen)
  have hbs : bs.length = 6 := Nat.succ.inj (Nat.succ.inj hlen)
  have hbytes : (formatBytes bs).length = 12 := by
    simp [formatBytes, hbs]
  have htext : toString ⟨d1, d2, d3, b0 :: b1 :: bs, hlen⟩ =
      formatHex 8 d1.toNat ++ ([charMinus] ++ (formatHex 4 d2.toNat ++ ([charMinus] ++
        (formatHex 4 d3.toNat ++ ([charMinus] ++ (formatHex 2 b0.toNat ++
          (formatHex 2 b1.toNat ++ ([charMinus] ++ (formatBytes bs ++ []))))))))) := by
    simp [toString, formatBytes]
  rw [parse_eq_some_iff, htext]
  -- each group behind what is printed before it
  obtain ⟨v1, h1, e1⟩ := readHex_formatHex 8 (by decide) d1.toNat_lt [] _
  obtain ⟨v2, h2, e2⟩ := readHex_formatHex 4 (by decide) d2.toNat_lt
    (formatHex 8 d1.toNat ++ [charMinus]) _
  obtain ⟨v3, h3, e3⟩ := readHex_formatHex 4 (by decide) d3.toNat_lt
    (formatHex 8 d1.toNat ++ ([charMinus] ++ (formatHex 4 d2.toNat ++ [charMinus]))) _
  obtain ⟨v4, h4, e4⟩ := readHex_formatHex 2 (by decide) b0.toNat_lt
    (formatHex 8 d1.toNat ++ ([charMinus] ++ (formatHex 4 d2.toNat ++ ([charMinus] ++
      (formatHex 4 d3.toNat ++ [charMinus]))))) _
  obtain ⟨v5, h5, e5⟩ := readHex_formatHex 2 (by decide) b1.toNat_lt
    (formatHex 8 d1.toNat ++ ([charMinus] ++ (formatHex 4 d2.toNat ++ ([charMinus] ++
      (formatHex 4 d3.toNat ++ ([charMinus] ++ formatHex 2 b0.toNat)))))) _
  have h6 := readHexBytes_formatBytes bs
    (formatHex 8 d1.toNat ++ ([charMinus] ++ (formatHex 4 d2.toNat ++ ([charMinus] ++
      (formatHex 4 d3.toNat ++ ([charMinus] ++ (formatHex 2 b0.toNat ++
        (formatHex 2 b1.toNat ++ [charMinus])))))))) []
  simp only [List.append_assoc, List.length_append, length_formatHex, List.length_singleton,
    List.length_nil, List.nil_append, Nat.reduceAdd, hbs] at h1 h2 h3 h4 h5 h6
  refine ⟨?_, ?_, ⟨v1, h1, ?_⟩, ⟨v2, h2, ?_⟩, ⟨v3, h3, ?_⟩, ⟨v4, v5, bs, h4, h5, h6, ?_⟩⟩
  · simp only [List.length_append, length_formatHex, List.length_singleton, List.length_nil, hbytes]
  · simp [Hyphens, List.getElem?_append]
  · rw [← UInt32.toNat_inj, UInt64.toNat_toUInt32, e1, Nat.mod_eq_of_lt d1.toNat_lt]
  · rw [← UInt16.toNat_inj, UInt64.toNat_toUInt16, e2, Nat.mod_eq_of_lt d2.toNat_lt]
  · rw [← UInt16.toNat_inj, UInt64.toNat_toUInt16, e3, Nat.mod_eq_of_lt d3.toNat_lt]
  · have hb0 : v4.toUInt8 = b0 := by
      rw [← UInt8.toNat_inj, UInt64.toNat_toUInt8, e4, Nat.mod_eq_of_lt b0.toNat_lt]
    have hb1 : v5.toUInt8 = b1 := by
      rw [← UInt8.toNat_inj, UInt64.toNat_toUInt8, e5, Nat.mod_eq_of_lt b1.toNat_lt]
    rw [hb0, hb1]


theorem forall_mem_slice {text : List UInt8} {P : UInt8 → Prop} {pos n : Nat}
    (h : pos + n ≤ text.length) :
    (∀ c ∈ slice text pos n, P c) ↔ ∀ i, pos ≤ i → i < pos + n → P (text.getD i 0) := by
  induction n generalizing pos with
  | zero =>
    refine iff_of_true (by simp [slice]) fun i hlo hhi => ?_
    omega
  | succ n ih =>
    rw [slice_succ (by omega), List.forall_mem_cons, ih (by omega)]
    constructor
    · rintro ⟨hfirst, hrest⟩ i hlo hhi
      rcases Nat.eq_or_lt_of_le hlo with rfl | hlt
      · exact hfirst
      · exact hrest i hlt (by omega)
    · intro hall
      exact ⟨hall pos (Nat.le_refl _) (by omega), fun i hlo hhi => hall i (by omega) (by omega)⟩

/-- The positions that `Parse` looks at are all there are. -/
theorem wellFormed_iff {text : List UInt8} (hlen : text.length = 36) :
    WellFormed text ↔ Hyphens text ∧ (∀ c ∈ slice text 0 8, IsHex c) ∧
      (∀ c ∈ slice text 9 4, IsHex c) ∧ (∀ c ∈ slice text 14 4, IsHex c) ∧
      (∀ c ∈ slice text 19 2, IsHex c) ∧ (∀ c ∈ slice text 21 2, IsHex c) ∧
      ∀ c ∈ slice text 24 12, IsHex c := by
  rw [forall_mem_slice (by omega), forall_mem_slice (by omega), forall_mem_slice (by omega),
    forall_mem_slice (by omega), forall_mem_slice (by omega), forall_mem_slice (by omega)]
  constructor
  · rintro ⟨-, hall⟩
    have hdigit : ∀ {lo hi : Nat}, hi ≤ 36 →
        (∀ i, lo ≤ i → i < hi → ¬ (i = 8 ∨ i = 13 ∨ i = 18 ∨ i = 23)) →
        ∀ i, lo ≤ i → i < hi → IsHex (text.getD i 0) := by
      intro lo hi hle hnot i hlo hhi
      have h := hall i (by omega)
      rwa [if_neg (hnot i hlo hhi)] at h
    exact ⟨⟨hall 8 (by decide), hall 13 (by decide), hall 18 (by decide), hall 23 (by decide)⟩,
      hdigit (by decide) (by omega), hdigit (by decide) (by omega), hdigit (by decide) (by omega),
      hdigit (by decide) (by omega), hdigit (by decide) (by omega), hdigit (by decide) (by omega)⟩
  · rintro ⟨⟨hh1, hh2, hh3, hh4⟩, h1, h2, h3, h4, h5, h6⟩
    refine ⟨hlen, fun i hi => ?_⟩
    split
    case isTrue h => rcases h with rfl | rfl | rfl | rfl <;> assumption
    case isFalse h =>
      rcases (by omega : i < 8 ∨ (9 ≤ i ∧ i < 13) ∨ (14 ≤ i ∧ i < 18) ∨ (19 ≤ i ∧ i < 21) ∨
          (21 ≤ i ∧ i < 23) ∨ 24 ≤ i) with h | ⟨_, _⟩ | ⟨_, _⟩ | ⟨_, _⟩ | ⟨_, _⟩ | h
      · exact h1 i (by omega) (by omega)
      · exact h2 i (by omega) (by omega)
      · exact h3 i (by omega) (by omega)
      · exact h4 i (by omega) (by omega)
      · exact h5 i (by omega) (by omega)
      · exact h6 i (by omega) (by omega)

theorem parse_isSome_iff (text : List UInt8) : (parse text).isSome ↔ WellFormed text := by
  by_cases hlen : text.length = 36
  · rw [wellFormed_iff hlen, ← readHex_isSome (by omega) (by decide),
      ← readHex_isSome (by omega) (by decide), ← readHex_isSome (by omega) (by decide),
      ← readHex_isSome (by omega) (by decide), ← readHex_isSome (by omega) (by decide),
      ← readHexBytes_isSome (show 24 + 2 * 6 ≤ text.length by omega)]
    constructor
    · intro h
      obtain ⟨g, hg⟩ := Option.isSome_iff_exists.mp h
      obtain ⟨-, hhyph, ⟨v1, h1, -⟩, ⟨v2, h2, -⟩, ⟨v3, h3, -⟩, ⟨b0, b1, bs, h4, h5, h6, -⟩⟩ :=
        parse_eq_some_iff.mp hg
      simp only [h1, h2, h3, h4, h5, h6, Option.isSome_some, and_true]
      exact hhyph
    · rintro ⟨hhyph, h1, h2, h3, h4, h5, h6⟩
      obtain ⟨v1, h1⟩ := Option.isSome_iff_exists.mp h1
      obtain ⟨v2, h2⟩ := Option.isSome_iff_exists.mp h2
      obtain ⟨v3, h3⟩ := Option.isSome_iff_exists.mp h3
      obtain ⟨b0, h4⟩ := Option.isSome_iff_exists.mp h4
      obtain ⟨b1, h5⟩ := Option.isSome_iff_exists.mp h5
      obtain ⟨bs, h6⟩ := Option.isSome_iff_exists.mp h6
      have hbs := length_readHexBytes h6
      have hreads : Reads text ⟨v1.toUInt32, v2.toUInt16, v3.toUInt16,
          b0.toUInt8 :: b1.toUInt8 :: bs, by rw [List.length_cons, List.length_cons, hbs]⟩ :=
        ⟨hlen, hhyph, ⟨v1, h1, rfl⟩, ⟨v2, h2, rfl⟩, ⟨v3, h3, rfl⟩, ⟨b0, b1, bs, h4, h5, h6, rfl⟩⟩
      rw [parse_eq_some_iff.mpr hreads]
      rfl
  · refine iff_of_false ?_ fun h => hlen h.1
    rw [parse, if_pos hlen]
    simp

/-! ## The wire -/

theorem toVal_encodable (g : Guid) : Encodable .plain (.dotNet .guid) g.toVal := by
  rw [Encodable]
  exact ⟨g.data1.toNat_lt, g.data2.toNat_lt, g.data3.toNat_lt, g.length_data4⟩

theorem plain_supports (B : Build) : B.Supports .plain (.dotNet .guid) := by
  refine .inr ⟨fun i t ht => ?_, fun u hu => ?_⟩
  · simp [Schema.plain] at ht
  · simp [Ty.parts] at hu

theorem encode_toVal (g : Guid) : encode .plain (.dotNet .guid) g.toVal =
    leBytes 4 g.data1.toNat ++ (leBytes 2 g.data2.toNat ++ (leBytes 2 g.data3.toNat ++ g.data4)) := by
  rw [encode]
  rfl

theorem length_encode_toVal (g : Guid) : (encode .plain (.dotNet .guid) g.toVal).length = 16 := by
  simp only [encode_toVal, List.length_append, length_leBytes, g.length_data4]

/-- A number copied into a host object and converted is the number on the wire. -/
theorem endianConvert_leBytes (e : Endian) {w n : Nat} (h : n < 256 ^ w) :
    endianConvert e w (hostNat e (leBytes w n)) = n := by
  have hconv := Reader.endianConvert_hostNat e (leBytes w n)
  rwa [length_leBytes, leNat_leBytes h] at hconv

theorem fromBytes_encode (e : Endian) (g : Guid) :
    fromBytes e (encode .plain (.dotNet .guid) g.toVal) g.length_encode_toVal = g := by
  have h1 : (encode .plain (.dotNet .guid) g.toVal).take 4 = leBytes 4 g.data1.toNat := by
    rw [encode_toVal]
    exact List.take_left' (length_leBytes _ _)
  have h2 : ((encode .plain (.dotNet .guid) g.toVal).drop 4).take 2 = leBytes 2 g.data2.toNat := by
    rw [encode_toVal, List.drop_left' (length_leBytes _ _)]
    exact List.take_left' (length_leBytes _ _)
  have h3 : ((encode .plain (.dotNet .guid) g.toVal).drop 6).take 2 = leBytes 2 g.data3.toNat := by
    rw [encode_toVal, ← List.append_assoc,
      List.drop_left' (by rw [List.length_append, length_leBytes, length_leBytes])]
    exact List.take_left' (length_leBytes _ _)
  have h4 : ((encode .plain (.dotNet .guid) g.toVal).drop 8).take 8 = g.data4 := by
    rw [encode_toVal, ← List.append_assoc, ← List.append_assoc, List.drop_left' (by
      rw [List.length_append, List.length_append, length_leBytes, length_leBytes, length_leBytes]),
      ← g.length_data4, List.take_length]
  have hw1 := endianConvert_leBytes e (w := 4) g.data1.toNat_lt
  have hw2 := endianConvert_leBytes e (w := 2) g.data2.toNat_lt
  have hw3 := endianConvert_leBytes e (w := 2) g.data3.toNat_lt
  unfold fromBytes
  simp only [h1, h2, h3, h4, hw1, hw2, hw3, UInt32.ofNat_toNat, UInt16.ofNat_toNat]

/-- The text and the wire form of a `Guid` both give it back, and `Parse` accepts just the
canonical form, in either case. -/
theorem text_and_wire (B : Build) :
    (∀ g : Guid, parse g.toString = some g) ∧
    (∀ g : Guid, ∃ bs, ∃ h : bs.length = 16,
      serialize .plain B (.dotNet .guid) g.toVal = .ret bs ∧ fromBytes B.endian bs h = g ∧
        (deserialize .plain (.dotNet .guid) B { data := bs }).out = .ret g.toVal) ∧
    (∀ text, (parse text).isSome ↔ WellFormed text) ∧
    ∀ text g, parse text = some g → g.toString = text.map toLower := by
  refine ⟨parse_toString, fun g => ?_, parse_isSome_iff,
    fun text g h => (parse_eq_some_iff.mp h).toString_eq⟩
  refine ⟨_, g.length_encode_toVal, serialize_eq_encode (plain_supports B) g.toVal_encodable,
    fromBytes_encode B.endian g, ?_⟩
  have hsize : (encode .plain (.dotNet .guid) g.toVal ++ []).length < B.sizeMod := by
    rw [List.append_nil, length_encode_toVal, Build.sizeMod]
    cases B.size <;> decide
  obtain ⟨l, hrun⟩ := deserialize_encode (plain_supports B) Schema.plain_shaped g.toVal_encodable
    (by simp [Recoverable]) (by simp [nest]) hsize
  rw [List.append_nil] at hrun
  rw [hrun]


end MemoryPack.Guid
