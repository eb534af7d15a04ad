import MemoryPack.Wire.Transcoding

/-!
# The length `WriteString` announces

A C# reader allocates its string from the second `int32_t` of the UTF-8 form. That
number comes from lead bytes alone: `unitsOf` is what one byte is worth, and the two
loops of `utf16_length_from_utf8` add up to the sum of it, whether or not the bytes are
UTF-8. For a text the sum is the length of its UTF-16 form. For other bytes it can be
twice their number, more than an `int32_t` holds.
-/

namespace MemoryPack

open Effect LittleEndian

/-! ## The additions of the counter -/

/-- What the fast path adds to `units`, block by block, and the bytes left over. -/
def blockAdditions : List UInt8 → List Int × List UInt8
  | b₀ :: b₁ :: b₂ :: b₃ :: b₄ :: b₅ :: b₆ :: b₇ :: rest =>
      if (b₀ ||| b₁ ||| b₂ ||| b₃ ||| b₄ ||| b₅ ||| b₆ ||| b₇) &&& 0x80 ≠ 0 then
        ([], b₀ :: b₁ :: b₂ :: b₃ :: b₄ :: b₅ :: b₆ :: b₇ :: rest)
      else (8 :: (blockAdditions rest).1, (blockAdditions rest).2)
  | bs => ([], bs)

/-- What the per-byte loop adds. -/
def byteAdditions : List UInt8 → List Int
  | [] => []
  | b :: bs =>
      if b &&& 0xC0 = 0x80 then byteAdditions bs
      else (if b ≥ 0xF0 then 2 else 1) :: byteAdditions bs

/-- Everything `utf16_length_from_utf8` adds to `units`, in its order. -/
def unitAdditions (bs : List UInt8) : List Int :=
  (blockAdditions bs).1 ++ byteAdditions (blockAdditions bs).2

/-- None of these additions to an `int32_t` overflows. -/
def AdditionsExact : Int → List Int → Prop
  | _, [] => True
  | units, a :: as => addInt32 units a = units + a ∧ AdditionsExact (addInt32 units a) as

/-- No intermediate value of the counter leaves `int32_t`. -/
def NoCounterOverflow (bs : List UInt8) : Prop := AdditionsExact 0 (unitAdditions bs)

theorem utf16AsciiBlocks_eq (units : Int) (bs : List UInt8) : utf16AsciiBlocks units bs =
    ((blockAdditions bs).1.foldl addInt32 units, (blockAdditions bs).2) := by
  induction bs using blockAdditions.induct generalizing units with
  | case1 b₀ b₁ b₂ b₃ b₄ b₅ b₆ b₇ rest h =>
      rw [utf16AsciiBlocks, blockAdditions, if_pos h, if_pos h]
      rfl
  | case2 b₀ b₁ b₂ b₃ b₄ b₅ b₆ b₇ rest h ih =>
      rw [utf16AsciiBlocks, blockAdditions, if_neg h, if_neg h, ih]
      rfl
  | case3 bs h =>
      rw [utf16AsciiBlocks.eq_2 _ _ h, blockAdditions.eq_2 _ h]
      rfl

theorem utf16CountBytes_eq (units : Int) (bs : List UInt8) :
    utf16CountBytes units bs = (byteAdditions bs).foldl addInt32 units := by
  induction bs generalizing units with
  | nil => rfl
  | cons b bs ih =>
      rw [utf16CountBytes, byteAdditions]
      split
      · exact ih units
      · exact ih _

/-- The function is its additions. -/
theorem utf16LengthFromUtf8_eq (bs : List UInt8) :
    utf16LengthFromUtf8 bs = (unitAdditions bs).foldl addInt32 0 := by
  rw [utf16LengthFromUtf8, utf16AsciiBlocks_eq, unitAdditions, List.foldl_append]
  exact utf16CountBytes_eq _ _

/-! ## What they add up to -/

/-- What one byte is worth: a continuation byte nothing, the lead of four bytes two. -/
def unitsOf (b : UInt8) : Nat :=
  if b &&& 0xC0 = 0x80 then 0 else if b ≥ 0xF0 then 2 else 1

theorem unitsOf_le (b : UInt8) : unitsOf b ≤ 2 := by
  unfold unitsOf
  split
  · decide
  · split <;> decide

theorem unitsOf_ascii {b : UInt8} : b &&& 0x80 = 0 → unitsOf b = 1 :=
  forall_byte (P := fun b => b &&& 0x80 = 0 → unitsOf b = 1) (by decide +kernel) b

/-- A byte with the high bit set shows in the block. -/
theorem and_eq_zero_of_or {b c m : UInt8} (h : (b ||| c) &&& m = 0) :
    b &&& m = 0 ∧ c &&& m = 0 := by
  have hdist : (b ||| c) &&& m = b &&& m ||| c &&& m := by
    apply UInt8.toNat.inj
    simp only [UInt8.toNat_and, UInt8.toNat_or, Nat.and_or_distrib_right]
  rw [hdist] at h
  exact UInt8.or_eq_zero_iff.mp h

theorem sum_byteAdditions (bs : List UInt8) :
    (byteAdditions bs).sum = ((bs.map unitsOf).sum : Nat) := by
  induction bs with
  | nil => rfl
  | cons b bs ih =>
      rw [List.map_cons, List.sum_cons, Nat.cast_add, ← ih, byteAdditions, unitsOf]
      split
      · simp
      · rw [List.sum_cons]
        split <;> rfl

/-- A block of the fast path is worth eight, the leftover what its bytes are worth. -/
theorem sum_blockAdditions (bs : List UInt8) : (blockAdditions bs).1.sum +
    (((blockAdditions bs).2.map unitsOf).sum : Nat) = ((bs.map unitsOf).sum : Nat) := by
  induction bs using blockAdditions.induct with
  | case1 b₀ b₁ b₂ b₃ b₄ b₅ b₆ b₇ rest h =>
      rw [blockAdditions, if_pos h, List.sum_nil, Int.zero_add]
  | case2 b₀ b₁ b₂ b₃ b₄ b₅ b₆ b₇ rest h ih =>
      have h₇ := and_eq_zero_of_or (not_not.mp h)
      have h₆ := and_eq_zero_of_or h₇.1
      have h₅ := and_eq_zero_of_or h₆.1
      have h₄ := and_eq_zero_of_or h₅.1
      have h₃ := and_eq_zero_of_or h₄.1
      have h₂ := and_eq_zero_of_or h₃.1
      have h₁ := and_eq_zero_of_or h₂.1
      rw [blockAdditions, if_neg h]
      simp only [List.map_cons, List.sum_cons, unitsOf_ascii h₁.1, unitsOf_ascii h₁.2,
        unitsOf_ascii h₂.2, unitsOf_ascii h₃.2, unitsOf_ascii h₄.2, unitsOf_ascii h₅.2,
        unitsOf_ascii h₆.2, unitsOf_ascii h₇.2]
      omega
  | case3 bs h =>
      rw [blockAdditions.eq_2 _ h, List.sum_nil, Int.zero_add]

theorem sum_unitAdditions (bs : List UInt8) :
    (unitAdditions bs).sum = ((bs.map unitsOf).sum : Nat) := by
  rw [unitAdditions, List.sum_append, sum_byteAdditions, sum_blockAdditions]

theorem nonneg_byteAdditions (bs : List UInt8) : ∀ a ∈ byteAdditions bs, 0 ≤ a := by
  induction bs with
  | nil => simp [byteAdditions]
  | cons b bs ih =>
      rw [byteAdditions]
      split
      · exact ih
      · refine List.forall_mem_cons.mpr ⟨?_, ih⟩
        split <;> decide

theorem nonneg_unitAdditions (bs : List UInt8) : ∀ a ∈ unitAdditions bs, 0 ≤ a := by
  have hblocks : ∀ a ∈ (blockAdditions bs).1, 0 ≤ a := by
    induction bs using blockAdditions.induct with
    | case1 b₀ b₁ b₂ b₃ b₄ b₅ b₆ b₇ rest h => simp [blockAdditions, h]
    | case2 b₀ b₁ b₂ b₃ b₄ b₅ b₆ b₇ rest h ih =>
        rw [blockAdditions, if_neg h]
        exact List.forall_mem_cons.mpr ⟨by decide, ih⟩
    | case3 bs h => simp [blockAdditions.eq_2 _ h]
  exact List.forall_mem_append.mpr ⟨hblocks, nonneg_byteAdditions _⟩

/-! ## Overflow -/

theorem foldl_addInt32 (as : List Int) (units : Int) (h : addInt32 units 0 = units) :
    as.foldl addInt32 units = addInt32 units as.sum := by
  induction as generalizing units with
  | nil => exact h.symm
  | cons a as ih =>
      rw [List.foldl_cons, ih _ (by simp [addInt32]), List.sum_cons]
      unfold addInt32
      rw [Int.bmod_add_bmod, Int.add_assoc]

/-- The number the function returns is the sum, as an `int32_t`. -/
theorem utf16LengthFromUtf8_sum (bs : List UInt8) :
    utf16LengthFromUtf8 bs = asInt32 ((bs.map unitsOf).sum : Nat) := by
  rw [utf16LengthFromUtf8_eq, foldl_addInt32 _ _ rfl, sum_unitAdditions, addInt32,
    Int.zero_add, asInt32]

/-- Nothing is subtracted, so the additions are exact when the last one is. -/
theorem additionsExact_iff (as : List Int) {units : Int} (h₀ : 0 ≤ units) (h : units < 2 ^ 31)
    (has : ∀ a ∈ as, 0 ≤ a) : AdditionsExact units as ↔ units + as.sum < 2 ^ 31 := by
  induction as generalizing units with
  | nil => simpa [AdditionsExact] using h
  | cons a as ih =>
      obtain ⟨ha, has⟩ := List.forall_mem_cons.mp has
      have hsum : 0 ≤ as.sum := List.sum_nonneg has
      rw [AdditionsExact, List.sum_cons]
      by_cases hfit : units + a < 2 ^ 31
      · have hexact : addInt32 units a = units + a := Reader.asInt32_of_lt (by omega) hfit
        rw [hexact, ih (by omega) hfit has]
        omega
      · refine iff_of_false (fun hexact => ?_) (by omega)
        have hlt : addInt32 units a < 2 ^ 31 := Reader.asInt32_lt (units + a)
        omega

theorem noCounterOverflow_iff (bs : List UInt8) :
    NoCounterOverflow bs ↔ (bs.map unitsOf).sum < 2 ^ 31 := by
  rw [NoCounterOverflow, additionsExact_iff _ (Int.le_refl 0) (by decide)
    (nonneg_unitAdditions bs), sum_unitAdditions]
  omega

/-! ## Texts -/

/-- The bytes of a character, by their place. -/
theorem unitsOf_tail (x : Nat) : unitsOf (UInt8.ofNat (x % 64 + 0x80)) = 0 := by
  have hlt : x % 64 < 64 := Nat.mod_lt _ (by decide)
  generalize x % 64 = y at hlt
  interval_cases y <;> rfl

theorem unitsOf_lead₂ (x : Nat) : unitsOf (UInt8.ofNat (x % 0x20 + 0xC0)) = 1 := by
  have hlt : x % 0x20 < 0x20 := Nat.mod_lt _ (by decide)
  generalize x % 0x20 = y at hlt
  interval_cases y <;> rfl

theorem unitsOf_lead₃ (x : Nat) : unitsOf (UInt8.ofNat (x % 0x10 + 0xE0)) = 1 := by
  have hlt : x % 0x10 < 0x10 := Nat.mod_lt _ (by decide)
  generalize x % 0x10 = y at hlt
  interval_cases y <;> rfl

theorem unitsOf_lead₄ (x : Nat) : unitsOf (UInt8.ofNat (x % 0x08 + 0xF0)) = 2 := by
  have hlt : x % 0x08 < 0x08 := Nat.mod_lt _ (by decide)
  generalize x % 0x08 = y at hlt
  interval_cases y <;> rfl

/-- A character is worth the length of its UTF-16 form. -/
theorem sum_unitsOf_char (c : Char) :
    ((String.utf8EncodeChar c).map unitsOf).sum = (Utf16.encodeChar c).length := by
  have hlen : (Utf16.encodeChar c).length = if c.val.toNat < 0x10000 then 1 else 2 := by
    unfold Utf16.encodeChar
    split <;> split <;> first | rfl | contradiction
  rw [hlen]
  unfold String.utf8EncodeChar
  generalize c.val.toNat = n
  dsimp only
  split
  · next h₁ =>
      have hone : unitsOf (UInt8.ofNat n) = 1 := by
        interval_cases n <;> rfl
      rw [if_pos (by omega)]
      simp [hone]
  · split
    · next h₂ =>
        rw [if_pos (by omega)]
        simp only [List.map_cons, List.map_nil, unitsOf_lead₂, unitsOf_tail]
        rfl
    · split
      · next h₃ =>
          rw [if_pos (by omega)]
          simp only [List.map_cons, List.map_nil, unitsOf_lead₃, unitsOf_tail]
          rfl
      · next h₃ =>
          rw [if_neg (by omega)]
          simp only [List.map_cons, List.map_nil, unitsOf_lead₄, unitsOf_tail]
          rfl

theorem sum_unitsOf_utf8 (cs : List Char) :
    ((utf8 cs).map unitsOf).sum = (Utf16.encode cs).length := by
  induction cs with
  | nil => rfl
  | cons c cs ih =>
      rw [Utf16.encode_cons, List.length_append, ← ih, ← sum_unitsOf_char]
      simp [utf8]

/-- A UTF-8 byte holds at most one UTF-16 unit. -/
theorem length_encode_le (cs : List Char) : (Utf16.encode cs).length ≤ (utf8 cs).length := by
  induction cs with
  | nil => exact Nat.le_refl _
  | cons c cs ih =>
      have hchar : (Utf16.encodeChar c).length ≤ (String.utf8EncodeChar c).length := by
        unfold Utf16.encodeChar String.utf8EncodeChar
        change (if c.val.toNat < 0x10000 then _ else _ : List UInt16).length ≤ _
        generalize c.val.toNat = n
        dsimp only
        split
        · exact Nat.le_trans (Nat.le_refl 1) (by split_ifs <;> simp)
        · rw [if_neg (by omega), if_neg (by omega), if_neg (by omega)]
          exact Nat.le_add_left 2 2
      rw [Utf16.encode_cons, List.length_append, utf8, List.flatMap_cons, List.length_append]
      exact Nat.add_le_add hchar ih

/-- The announced length of a text is the length of its UTF-16 form, wherever the
characters lie in the blocks of eight bytes. -/
theorem utf16_length_announced (cs : List Char) (h : (utf8 cs).length ≤ 2 ^ 31 - 1) :
    utf16LengthFromUtf8 (utf8 cs) = (Utf16.encode cs).length ∧ NoCounterOverflow (utf8 cs) := by
  have hlt : (Utf16.encode cs).length < 2 ^ 31 := by
    have hle := length_encode_le cs
    omega
  constructor
  · rw [utf16LengthFromUtf8_sum, sum_unitsOf_utf8]
    exact Reader.asInt32_of_lt (by omega) (by omega)
  · rw [noCounterOverflow_iff, sum_unitsOf_utf8]
    exact hlt

/-- A character of four bytes behind a block of eight. -/
theorem utf16_length_announced_emoji :
    utf16LengthFromUtf8 (utf8 "abcdefgh😀".toList) = (Utf16.encode "abcdefgh😀".toList).length ∧
      NoCounterOverflow (utf8 "abcdefgh😀".toList) :=
  utf16_length_announced "abcdefgh😀".toList (by decide)

/-! ## Bytes that are no text -/

/-- The second `int32_t` that `WriteString(s)` leaves in an empty writer. -/
def emittedUtf16Length (B : Build) (s : List UInt8) : Int :=
  asInt32 (leNat (((Writer.writeString s B {}).st.getSpan.drop 4).take 4))

/-- The field holds what the function returned, overflow or not. -/
theorem emittedUtf16Length_eq (B : Build) {s : List UInt8} (h : s.length ≤ maxLength) :
    emittedUtf16Length B s = utf16LengthFromUtf8 s := by
  obtain ⟨-, hview⟩ := (Emits.writeString (B := B) h).room {} MemoryPackWriter.inv_default trivial
  have hspan : (Writer.writeString s B {}).st.getSpan = encodeString s :=
    congrArg AppendList.bytes hview
  rw [emittedUtf16Length, hspan, encodeString]
  cases s with
  | nil => rfl
  | cons b s =>
      have hdrop : (le32 (-((b :: s).length : Int) - 1) ++
          (le32 (utf16LengthFromUtf8 (b :: s)) ++ (b :: s))).drop 4 =
            le32 (utf16LengthFromUtf8 (b :: s)) ++ (b :: s) := List.drop_left' (length_le32 _)
      have hint : -2 ^ 31 ≤ utf16LengthFromUtf8 (b :: s) ∧
          utf16LengthFromUtf8 (b :: s) < 2 ^ 31 := by
        rw [utf16LengthFromUtf8_sum]
        exact ⟨Reader.le_asInt32 _, Reader.asInt32_lt _⟩
      rw [List.isEmpty_cons, if_neg (by decide), hdrop, List.take_left' (length_le32 _), le32,
        leNat_leBytes (int32Bits_lt _), Reads.asInt32_int32Bits hint.1 hint.2]

theorem unitsOf_eq (b : UInt8) :
    unitsOf b = (if b &&& 0xC0 ≠ 0x80 then 1 else 0) + (if b ≥ 0xF0 then 1 else 0) :=
  forall_byte
    (P := fun b => unitsOf b =
      (if b &&& 0xC0 ≠ 0x80 then 1 else 0) + (if b ≥ 0xF0 then 1 else 0))
    (by decide +kernel) b

/-- No continuation byte counts, and a byte from 0xF0 on counts twice. -/
theorem sum_unitsOf_eq (s : List UInt8) : (s.map unitsOf).sum =
    s.countP (fun b => b &&& 0xC0 ≠ 0x80) + s.countP (fun b => b ≥ 0xF0) := by
  induction s with
  | nil => rfl
  | cons b s ih =>
      rw [List.map_cons, List.sum_cons, ih, unitsOf_eq, List.countP_cons, List.countP_cons]
      simp only [decide_eq_true_eq]
      omega

/-- A byte string that `WriteString` accepts is counted without overflow, and announced
with a length that is not negative, exactly when its bytes other than continuation bytes
and its bytes from 0xF0 on are fewer than 2^31 together. -/
theorem utf16_counter_exact_iff (B : Build) (s : List UInt8) (h : s.length ≤ maxLength) :
    (NoCounterOverflow s ∧ 0 ≤ emittedUtf16Length B s) ↔
      s.countP (fun b => b &&& 0xC0 ≠ 0x80) + s.countP (fun b => b ≥ 0xF0) < 2 ^ 31 := by
  rw [noCounterOverflow_iff, emittedUtf16Length_eq B h, utf16LengthFromUtf8_sum,
    ← sum_unitsOf_eq]
  constructor
  · exact And.left
  · intro hsum
    refine ⟨hsum, ?_⟩
    rw [Reader.asInt32_of_lt (by omega) (by omega)]
    exact Int.natCast_nonneg _

/-- A four-byte lead without its continuation bytes. -/
theorem utf16_counter_exact_iff_lead : ([0xF0] : List UInt8).length ≤ maxLength ∧
    ((NoCounterOverflow [0xF0] ∧ 0 ≤ emittedUtf16Length ⟨true, .little, .w64, 0⟩ [0xF0]) ↔
      ([0xF0] : List UInt8).countP (fun b => b &&& 0xC0 ≠ 0x80) +
        ([0xF0] : List UInt8).countP (fun b => b ≥ 0xF0) < 2 ^ 31) :=
  ⟨by decide, utf16_counter_exact_iff ⟨true, .little, .w64, 0⟩ [0xF0] (by decide)⟩

/-- 2^30 four-byte leads in a row are worth 2^31 units, and -2^31 is announced. -/
theorem lead_bytes_overflow : (List.replicate (2 ^ 30) (0xF0 : UInt8)).length ≤ maxLength ∧
    ¬ NoCounterOverflow (List.replicate (2 ^ 30) 0xF0) ∧
    emittedUtf16Length ⟨true, .little, .w64, 0⟩ (List.replicate (2 ^ 30) 0xF0) = -2 ^ 31 := by
  have hlen : (List.replicate (2 ^ 30) (0xF0 : UInt8)).length ≤ maxLength := by
    rw [List.length_replicate]
    decide
  have hsum : ((List.replicate (2 ^ 30) (0xF0 : UInt8)).map unitsOf).sum = 2 ^ 31 := by
    rw [List.map_replicate, List.sum_replicate]
    rfl
  refine ⟨hlen, ?_, ?_⟩
  · rw [noCounterOverflow_iff, hsum]
    exact Nat.lt_irrefl _
  · rw [emittedUtf16Length_eq _ hlen, utf16LengthFromUtf8_sum, hsum]
    rfl

end MemoryPack
