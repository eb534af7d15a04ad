import Mathlib.Data.List.Basic

/-!
# UTF-16

Sequences of 16-bit code units that need not be well formed. `encode` is the UTF-16
form of a text, `IsValid` says that a sequence is one, and `replaceUnpaired` puts
U+FFFD for every surrogate that is not one half of a pair. Pairing is a property of
a position and its two neighbours, so the definition does not run through the
sequence from the left the way a decoder does.
-/

namespace Utf16

def IsHigh (u : UInt16) : Prop := 0xD800 ≤ u.toNat ∧ u.toNat ≤ 0xDBFF
def IsLow (u : UInt16) : Prop := 0xDC00 ≤ u.toNat ∧ u.toNat ≤ 0xDFFF

instance (u : UInt16) : Decidable (IsHigh u) := inferInstanceAs (Decidable (_ ∧ _))
instance (u : UInt16) : Decidable (IsLow u) := inferInstanceAs (Decidable (_ ∧ _))

theorem IsHigh.not_isLow {u : UInt16} (h : IsHigh u) : ¬ IsLow u := by
  intro hl
  exact absurd (Nat.le_trans hl.1 h.2) (by decide)

/-! ## Encoding -/

def encodeChar (c : Char) : List UInt16 :=
  if c.toNat < 0x10000 then [UInt16.ofNat c.toNat]
  else [UInt16.ofNat (0xD800 + (c.toNat - 0x10000) / 0x400),
    UInt16.ofNat (0xDC00 + (c.toNat - 0x10000) % 0x400)]

def encode (cs : List Char) : List UInt16 := cs.flatMap encodeChar

def IsValid (us : List UInt16) : Prop := ∃ cs, encode cs = us

@[simp] theorem encode_nil : encode [] = [] := rfl

theorem encode_cons (c : Char) (cs : List Char) : encode (c :: cs) = encodeChar c ++ encode cs :=
  List.flatMap_cons

/-- A character is one unit that is no surrogate, or a pair. -/
theorem encodeChar_cases (c : Char) :
    (∃ u, encodeChar c = [u] ∧ ¬ IsHigh u ∧ ¬ IsLow u) ∨
      ∃ hi lo, encodeChar c = [hi, lo] ∧ IsHigh hi ∧ IsLow lo := by
  have hc : c.toNat < 0xD800 ∨ 0xDFFF < c.toNat ∧ c.toNat < 0x110000 := c.valid
  unfold encodeChar
  split
  · next hlt =>
      refine .inl ⟨_, rfl, ?_⟩
      have hu : (UInt16.ofNat c.toNat).toNat = c.toNat := by
        rw [UInt16.toNat_ofNat']
        exact Nat.mod_eq_of_lt hlt
      rw [IsHigh, IsLow, hu]
      omega
  · next hge =>
      refine .inr ⟨_, _, rfl, ?_⟩
      rw [IsHigh, IsLow, UInt16.toNat_ofNat', UInt16.toNat_ofNat']
      omega

/-! ## Replacing unpaired surrogates -/

/-- The unit at position `i` is one half of a surrogate pair. -/
def pairedAt (us : List UInt16) (i : Nat) : Bool :=
  us[i]?.any (IsHigh ·) && us[i + 1]?.any (IsLow ·) ||
    match i with
    | 0 => false
    | j + 1 => us[j]?.any (IsHigh ·) && us[j + 1]?.any (IsLow ·)

def replaceUnpaired (us : List UInt16) : List UInt16 :=
  us.mapIdx fun i u => if (IsHigh u ∨ IsLow u) ∧ ¬ pairedAt us i then 0xFFFD else u

@[simp] theorem replaceUnpaired_nil : replaceUnpaired [] = [] := rfl

@[simp] theorem length_replaceUnpaired (us : List UInt16) :
    (replaceUnpaired us).length = us.length := List.length_mapIdx

/-- A first unit that is not paired with its successor does not matter to the rest. -/
theorem pairedAt_succ {u : UInt16} {us : List UInt16}
    (h : ¬ (IsHigh u ∧ ∃ lo, us[0]? = some lo ∧ IsLow lo)) (i : Nat) :
    pairedAt (u :: us) (i + 1) = pairedAt us i := by
  cases i with
  | succ i => rfl
  | zero =>
      have hnone : (decide (IsHigh u) && us[0]?.any (IsLow ·)) = false := by
        rw [Bool.and_eq_false_iff, decide_eq_false_iff_not]
        by_cases hu : IsHigh u
        · right
          cases hlo : us[0]? with
          | none => rfl
          | some lo => exact decide_eq_false fun hl => h ⟨hu, lo, hlo, hl⟩
        · exact Or.inl hu
      change (_ || (decide (IsHigh u) && us[0]?.any (IsLow ·))) = (_ || false)
      rw [hnone]
      rfl

theorem replaceUnpaired_cons {u : UInt16} {us : List UInt16}
    (h : ¬ (IsHigh u ∧ ∃ lo, us[0]? = some lo ∧ IsLow lo)) :
    replaceUnpaired (u :: us) =
      (if IsHigh u ∨ IsLow u then 0xFFFD else u) :: replaceUnpaired us := by
  have hfirst : pairedAt (u :: us) 0 = false := by
    cases hlo : us[0]? with
    | none => simp [pairedAt, hlo]
    | some lo =>
        have hboth : ¬ (IsHigh u ∧ IsLow lo) := fun hb => h ⟨hb.1, lo, hlo, hb.2⟩
        simpa [pairedAt, hlo] using hboth
  rw [replaceUnpaired, List.mapIdx_cons]
  congr 1
  · simp [hfirst]
  · simp only [pairedAt_succ h]
    rfl

theorem replaceUnpaired_pair {hi lo : UInt16} (hh : IsHigh hi) (hl : IsLow lo)
    (us : List UInt16) :
    replaceUnpaired (hi :: lo :: us) = hi :: lo :: replaceUnpaired us := by
  have hrest : ∀ i, pairedAt (hi :: lo :: us) (i + 2) = pairedAt us i := by
    intro i
    cases i with
    | succ i => rfl
    | zero =>
        have hlo : ¬ IsHigh lo := fun h => h.not_isLow hl
        simp [pairedAt, hlo]
  have h0 : pairedAt (hi :: lo :: us) 0 = true := by simp [pairedAt, hh, hl]
  have h1 : pairedAt (hi :: lo :: us) 1 = true := by simp [pairedAt, hh, hl]
  rw [replaceUnpaired, List.mapIdx_cons, List.mapIdx_cons]
  simp only [Nat.zero_add, h0, h1, hrest, not_true_eq_false, and_false, if_false]
  rfl

/-- A text has no unpaired surrogate. -/
theorem replaceUnpaired_encode (cs : List Char) : replaceUnpaired (encode cs) = encode cs := by
  induction cs with
  | nil => rfl
  | cons c cs ih =>
      rw [encode_cons]
      rcases encodeChar_cases c with ⟨u, hu, hh, hl⟩ | ⟨hi, lo, hu, hh, hl⟩
      · rw [hu, List.singleton_append, replaceUnpaired_cons fun h => hh h.1,
          if_neg (not_or.mpr ⟨hh, hl⟩), ih]
      · rw [hu, List.cons_append, List.singleton_append, replaceUnpaired_pair hh hl, ih]

end Utf16
