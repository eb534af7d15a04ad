import MemoryPack.Reader.Basic
import MemoryPack.Wire.Encode
import Mathlib.Algebra.Group.Action.Defs
import Mathlib.Algebra.Order.BigOperators.Group.List
import Mathlib.Data.List.Forall2

/-!
# Reading an encoding

`Reads B d m bs a` says that the program `m`, on any input that continues with the
bytes `bs`, returns `a` and moves past exactly those bytes, whatever comes after
them. The checks a reader makes against the rest of the input can only pass in such
a run, in either build, so nothing here mentions failure.

`d` is how many object bodies the run opens inside each other; `CanRead` asks for
that much room below `maxDepth`.
-/

namespace MemoryPack

open Effect LittleEndian

/-- A reader that has not failed, with options that accept every `int32_t` length
and `d` more nested objects. -/
structure CanRead (B : Build) (d : Nat) (r : MemoryPackReader) : Prop where
  error : r.error = .none
  pos_le : r.pos ≤ r.size
  size_lt : r.size < B.sizeMod
  collections : maxLength ≤ r.options.maxCollectionLength.toNat
  strings : maxLength ≤ r.options.maxStringLength.toNat
  depth : r.depth.toNat + d ≤ r.options.maxDepth.toNat

def Reads (B : Build) (d : Nat) {α : Type} (m : ReadM α) (bs : List UInt8) (a : α) : Prop :=
  ∀ (r : MemoryPackReader) (s : List UInt8), CanRead B d r → r.rest = bs ++ s →
    ∃ l, m B r = ⟨.ret a, { r with pos := r.pos + bs.length }, l⟩

namespace CanRead

variable {B : Build} {d : Nat} {r : MemoryPackReader} {bs s : List UInt8}

theorem length_rest (r : MemoryPackReader) : r.rest.length = r.remaining := List.length_drop

theorem remaining (hrest : r.rest = bs ++ s) : r.remaining = bs.length + s.length := by
  rw [← length_rest, hrest, List.length_append]

theorem le_remaining (hrest : r.rest = bs ++ s) : bs.length ≤ r.remaining := by
  rw [remaining hrest]
  exact Nat.le_add_right _ _

theorem rest_move (hrest : r.rest = bs ++ s) :
    ({ r with pos := r.pos + bs.length } : MemoryPackReader).rest = s := by
  rw [Reader.rest_add, hrest, List.drop_left]

theorem move (h : CanRead B d r) (hrest : r.rest = bs ++ s) :
    CanRead B d { r with pos := r.pos + bs.length } := by
  have hle : bs.length ≤ r.size - r.pos := le_remaining hrest
  have hpos := h.pos_le
  refine ⟨h.error, ?_, h.size_lt, h.collections, h.strings, h.depth⟩
  show r.pos + bs.length ≤ r.size
  omega

theorem shallow {d' : Nat} (h : CanRead B d' r) (hd : d ≤ d') : CanRead B d r := by
  have hdepth := h.depth
  exact ⟨h.error, h.pos_le, h.size_lt, h.collections, h.strings, by omega⟩

end CanRead

namespace Reads

variable {B : Build} {d : Nat} {α β : Type} {m : ReadM α} {f : α → ReadM β}
  {bs cs ds : List UInt8} {a : α} {b : β}

theorem shallow {d' : Nat} (h : Reads B d m bs a) (hd : d ≤ d') : Reads B d' m bs a :=
  fun r s hr hrest => h r s (hr.shallow hd) hrest

/-! ## Sequencing -/

theorem pure (a : α) : Reads B d (Pure.pure a : ReadM α) [] a := by
  intro r s _ _
  exact ⟨[], rfl⟩

theorem bind (hm : Reads B d m bs a) (hf : Reads B d (f a) cs b) :
    Reads B d (m >>= f) (bs ++ cs) b := by
  intro r s hr hrest
  rw [List.append_assoc] at hrest
  obtain ⟨l, hrun⟩ := hm r (cs ++ s) hr hrest
  obtain ⟨l', hrun'⟩ := hf _ s (hr.move hrest) (CanRead.rest_move hrest)
  refine ⟨l ++ l', ?_⟩
  rw [Prog.bind_apply, hrun, Res.bind_ret, hrun', Res.after_mk, List.length_append, Nat.add_assoc]

theorem seq (hm : Reads B d m bs a) (hf : Reads B d (f a) cs b) (h : ds = bs ++ cs) :
    Reads B d (m >>= f) ds b := h ▸ hm.bind hf

/-- The last part consumes nothing. -/
theorem andThen (hm : Reads B d m bs a) (hf : Reads B d (f a) [] b) : Reads B d (m >>= f) bs b :=
  hm.seq hf (List.append_nil _).symm

theorem map (hm : Reads B d m bs a) (g : α → β) :
    Reads B d (do return g (← m) : ReadM β) bs (g a) := hm.andThen (pure _)

/-- A step that consumes nothing and does not change the reader. -/
theorem still (h : ∀ r s, CanRead B d r → r.rest = bs ++ s → ∃ l, m B r = ⟨.ret a, r, l⟩)
    (hf : Reads B d (f a) bs b) : Reads B d (m >>= f) bs b := by
  intro r s hr hrest
  obtain ⟨l, hrun⟩ := h r s hr hrest
  obtain ⟨l', hrun'⟩ := hf r s hr hrest
  exact ⟨l ++ l', by rw [Prog.bind_apply, hrun, Res.bind_ret, hrun', Res.after_mk]⟩

theorem tell (e : ReadEvent) {m : ReadM β} (hf : Reads B d m bs b) :
    Reads B d (do Prog.tell e; m) bs b :=
  still (fun _ _ _ _ => ⟨[e], rfl⟩) hf

theorem host {f : Build → ReadM β} (hf : Reads B d (f B) bs b) : Reads B d (Prog.ask >>= f) bs b :=
  still (fun _ _ _ _ => ⟨[], rfl⟩) hf

theorem get {f : MemoryPackReader → ReadM β} (hf : ∀ r, Reads B d (f r) bs b) :
    Reads B d (Prog.get >>= f) bs b := by
  intro r s hr hrest
  obtain ⟨l, hrun⟩ := hf r r s hr hrest
  exact ⟨l, hrun⟩

/-- The reader has not failed. -/
theorem failed {f : Bool → ReadM β} (hf : Reads B d (f false) bs b) :
    Reads B d (Reader.failed >>= f) bs b := by
  refine still (fun r _ hr _ => ⟨[], ?_⟩) hf
  simp [Reader.failed, MemoryPackReader.failed, hr.error]

/-! ## Bytes and numbers -/

theorem takeBytes (bs : List UInt8) : Reads B d (Reader.takeBytes bs.length) bs (some bs) := by
  intro r s hr hrest
  rw [Reader.takeBytes_ok hr.error (CanRead.le_remaining hrest), hrest, List.take_left]
  exact ⟨_, rfl⟩

theorem takeBytes_of_length {n : Nat} (h : bs.length = n) :
    Reads B d (Reader.takeBytes n) bs (some bs) := h ▸ takeBytes bs

theorem advance {n : Nat} (h : bs.length = n) : Reads B d (Reader.advance n) bs () := by
  subst h
  intro r s hr hrest
  rw [Reader.advance_ok hr.error (CanRead.le_remaining hrest)]
  exact ⟨_, rfl⟩

theorem readByte (b : UInt8) : Reads B d Reader.readByte [b] b := by
  intro r s hr hrest
  rw [Reader.readByte_ok hr.error (CanRead.le_remaining hrest), hrest]
  exact ⟨_, rfl⟩

theorem readRaw {w n : Nat} (h : n < 256 ^ w) : Reads B d (Reader.readRaw w) (leBytes w n) n := by
  intro r s hr hrest
  have hle := CanRead.le_remaining hrest
  rw [length_leBytes] at hle
  rw [Reader.readRaw_ok hr.error hle, hrest, List.take_left' (length_leBytes w n),
    leNat_leBytes h, length_leBytes]
  exact ⟨_, rfl⟩

theorem asInt32_int32Bits {i : Int} (h₁ : -2 ^ 31 ≤ i) (h₂ : i < 2 ^ 31) :
    asInt32 (int32Bits i) = i := by
  unfold asInt32 int32Bits
  rw [Int.toNat_of_nonneg (by omega)]
  exact (Int.emod_bmod ..).trans (Reader.asInt32_of_lt h₁ h₂)

/-- The header word of a collection or string, and what depends on it. -/
theorem int32 {f : Int → ReadM β} {i : Int} (h₁ : -2 ^ 31 ≤ i) (h₂ : i < 2 ^ 31)
    (hf : Reads B d (f i) cs b) :
    Reads B d (do f (asInt32 (← Reader.readRaw 4))) (le32 i ++ cs) b := by
  have h := asInt32_int32Bits h₁ h₂
  refine (readRaw (int32Bits_lt i)).bind ?_
  rwa [h]

/-! ## Headers -/

theorem readObjectHeader {c : UInt8} (h : c ≤ maxMemberCount) :
    Reads B d Reader.readObjectHeader [c] ⟨c, false⟩ := by
  intro r s hr hrest
  have hle := CanRead.le_remaining hrest
  have hhead : r.rest.headD 0 = c := by rw [hrest]; rfl
  rw [Reader.readObjectHeader_ok hr.error hle (hhead ▸ h), hhead]
  exact ⟨_, rfl⟩

theorem readUnionHeader (tag : UInt16) :
    Reads B d Reader.readUnionHeader (encodeTag tag) (some tag) := by
  unfold encodeTag
  split
  · next hlt =>
      have hlt' : tag.toNat < 250 := hlt
      have hbyte : tag.toUInt8.toNat = tag.toNat := by
        rw [UInt16.toNat_toUInt8]
        omega
      have hnull : tag.toUInt8 ≠ nullObject := by
        intro h
        rw [h] at hbyte
        have h255 : nullObject.toNat = 255 := rfl
        omega
      have hwide : tag.toUInt8 ≠ wideTag := by
        intro h
        rw [h] at hbyte
        have h250 : wideTag.toNat = 250 := rfl
        omega
      have hgt : ¬ tag.toUInt8 > wideTag := by
        rw [gt_iff_lt, UInt8.lt_iff_toNat_lt, hbyte]
        have h250 : wideTag.toNat = 250 := rfl
        omega
      have hback : tag.toUInt8.toUInt16 = tag := by
        apply UInt16.toNat_inj.mp
        rw [UInt8.toNat_toUInt16, hbyte]
      refine (readByte _).andThen ?_
      rw [if_neg hnull, if_neg hwide, if_neg hgt, hback]
      exact pure _
  · refine (readByte wideTag).seq ?_ rfl
    rw [if_neg (by decide), if_pos rfl]
    have hlt : tag.toNat < 256 ^ 2 := tag.toNat_lt
    have h := (readRaw (B := B) (d := d) hlt).map fun n => some (UInt16.ofNat n)
    rwa [UInt16.ofNat_toNat] at h

theorem readVarIntLength {n : Nat} (h : n < 2 ^ 32) :
    Reads B d Reader.readVarIntLength (encodeVarInt n) n := by
  unfold encodeVarInt
  split
  · next hle =>
      have hle' : n ≤ 127 := hle
      have hbyte : (UInt8.ofNat n).toNat = n := by
        rw [UInt8.toNat_ofNat']
        omega
      have hle8 : UInt8.ofNat n ≤ varintMaxSingle := by
        rw [UInt8.le_iff_toNat_le, hbyte]
        exact hle
      refine (readByte _).andThen ?_
      rw [if_pos hle8, hbyte]
      exact pure _
  · split
    · refine (readByte _).seq ?_ rfl
      rw [if_neg (by decide), if_pos rfl]
      exact readRaw (by omega)
    · refine (readByte _).seq ?_ rfl
      rw [if_neg (by decide), if_neg (by decide), if_pos rfl]
      exact readRaw (by omega)

/-- `ReadCollectionLength` of a length behind which every element is present. -/
theorem readCollectionLength {f : Int → ReadM β} {min len : Nat} (hlen : len ≤ maxLength)
    (hpresent : len * min ≤ cs.length) (hf : Reads B d (f len) cs b) :
    Reads B d (Reader.readCollectionLength min >>= f) (le32 len ++ cs) b := by
  intro r s hr hrest
  rw [List.append_assoc] at hrest
  have hlt : (len : Int) < 2 ^ 31 := by
    unfold maxLength at hlen
    omega
  have h4 : (le32 len).length = 4 := length_leBytes 4 _
  have hhead : (len : Int) = asInt32 (leNat (r.rest.take 4)) := by
    rw [hrest, List.take_left' h4]
    unfold le32
    rw [leNat_leBytes (int32Bits_lt _), asInt32_int32Bits (by omega) hlt]
  have hrem : cs.length ≤ ({ r with pos := r.pos + 4 } : MemoryPackReader).remaining := by
    have h := CanRead.remaining hrest
    rw [Reader.remaining_add, h, h4, List.length_append]
    omega
  have hok : Reader.LengthOk min len { r with pos := r.pos + 4 } := by
    refine ⟨by omega, ?_, ?_⟩
    · show (len : Int).toNat ≤ r.options.maxCollectionLength.toNat
      exact Nat.le_trans hlen hr.collections
    · intro hmin
      rw [Int.toNat_natCast, Nat.le_div_iff_mul_le hmin]
      exact Nat.le_trans hpresent hrem
  have h4' : 4 ≤ r.remaining := by
    rw [CanRead.remaining hrest, h4]
    omega
  obtain ⟨l, hrun⟩ := Reader.readCollectionLength_ok (B := B) hr.error h4' hhead (Or.inr hok)
  have hmove := hr.move hrest
  have hrest' := CanRead.rest_move hrest
  rw [h4] at hmove hrest'
  obtain ⟨l', hrun'⟩ := hf _ s hmove hrest'
  refine ⟨l ++ l', ?_⟩
  rw [Prog.bind_apply, hrun, Res.bind_ret, hrun', Res.after_mk, List.length_append, h4,
    Nat.add_assoc]

/-! ## Checks -/

theorem ensureBytes {f : Bool → ReadM β} {n : Nat} (hn : n ≤ bs.length)
    (hf : Reads B d (f true) bs b) : Reads B d (Reader.ensureBytes n >>= f) bs b :=
  still (fun _ _ hr hrest =>
    ⟨[], Reader.ensureBytes_ok hr.error (Nat.le_trans hn (CanRead.le_remaining hrest))⟩) hf

/-- A product that counts bytes of the input does not wrap. -/
theorem sizeProduct {f : Nat → ReadM β} {n k : Nat} (hn : n * k ≤ bs.length)
    (hf : Reads B d (f (n * k)) bs b) : Reads B d (Reader.sizeProduct n k >>= f) bs b := by
  refine still (fun r s hr hrest => ⟨[.product n k], ?_⟩) hf
  have hle : bs.length ≤ r.size - r.pos := CanRead.le_remaining hrest
  have hlt := hr.size_lt
  rw [Reader.sizeProduct_apply, Nat.mod_eq_of_lt (by omega)]

theorem checkStringLength {f : Bool → ReadM β} {n unitSize : Nat} (hn : n ≤ maxLength)
    (hpresent : n * unitSize ≤ bs.length) (hf : Reads B d (f true) bs b) :
    Reads B d (Reader.checkStringLength n unitSize >>= f) bs b := by
  refine still (fun r s hr hrest => ⟨[], Reader.checkStringLength_ok ⟨?_, ?_⟩⟩) hf
  · exact Nat.le_trans hn hr.strings
  · intro hunit
    rw [Nat.le_div_iff_mul_le hunit]
    exact Nat.le_trans hpresent (CanRead.le_remaining hrest)

/-! ## Scalars and strings -/

theorem readScalar {s : Scalar} {n : Nat} (h : s.Holds n) :
    Reads B d (Reader.readScalar s) (encodeScalar s n) n := by
  have hraw : ∀ {w}, n < 256 ^ w → Reads B d (Reader.readRaw w) (leBytes w n) n :=
    fun hn => readRaw hn
  cases s with
  | bool =>
      have hn : n = 0 ∨ n = 1 := by
        have h2 : n < 2 := h
        omega
      rcases hn with rfl | rfl
      · exact (readByte 0).map fun b => if b ≠ 0 then 1 else 0
      · exact (readByte 1).map fun b => if b ≠ 0 then 1 else 0
  | float => exact hraw h
  | double => exact hraw h
  | int signed w =>
      cases w with
      | w1 =>
          have hbyte : (UInt8.ofNat n).toNat = n := by
            have hn : n < 256 := h
            rw [UInt8.toNat_ofNat']
            omega
          have hread := (readByte (B := B) (d := d) (UInt8.ofNat n)).map fun b => b.toNat
          rw [hbyte] at hread
          exact hread
      | w2 => exact hraw h
      | w4 => exact hraw h
      | w8 => exact hraw h
  | enum signed w => exact hraw h

/-- `ReadString()` behind its header word. -/
def stringPayload (header : Int) : ReadM (Option (List UInt8)) := do
  if ← Reader.failed then return some []
  if header = -1 then return none
  if header = 0 then return some []
  if header > 0 then return some (← Reader.readUtf16String header.toNat)
  let byteCount := (-header - 1).toNat
  let _ ← Reader.readRaw 4
  if !(← Reader.checkStringLength byteCount 1) then return some []
  match ← Reader.takeBytes byteCount with
  | none => return some []
  | some bs =>
      Prog.tell (.acceptedString byteCount 1)
      return some bs

theorem readString_eq : Reader.readString = (do stringPayload (asInt32 (← Reader.readRaw 4))) :=
  rfl

theorem readString {bs : List UInt8} (h : bs.length ≤ maxLength) :
    Reads B d Reader.readString (encodeString bs) (some bs) := by
  have hmax : bs.length < 2 ^ 31 := by
    unfold maxLength at h
    omega
  unfold encodeString
  split
  · next hnil =>
      rw [List.isEmpty_iff.mp hnil, ← List.append_nil (le32 0), readString_eq]
      refine int32 (by decide) (by decide) (failed ?_)
      rw [if_neg (by decide), if_neg (by decide), if_pos rfl]
      exact pure _
  · next hne =>
      have hpos : 0 < bs.length := by
        rw [List.isEmpty_iff] at hne
        exact List.length_pos_iff.mpr hne
      rw [readString_eq]
      refine int32 (by omega) (by omega) (failed ?_)
      have hcount : (-(-(bs.length : Int) - 1) - 1).toNat = bs.length := by omega
      rw [if_neg (by decide), if_neg (by omega), if_neg (by omega), if_neg (by omega), hcount]
      -- the UTF-16 length is read and ignored
      refine (readRaw (int32Bits_lt _)).bind ?_
      refine checkStringLength h (by omega) ?_
      rw [if_neg (by decide)]
      refine (takeBytes bs).andThen ?_
      exact tell _ (pure _)

theorem readString_null : Reads B d Reader.readString (le32 (-1)) none := by
  rw [← List.append_nil (le32 (-1)), readString_eq]
  refine int32 (by decide) (by decide) (failed ?_)
  rw [if_neg (by decide), if_pos rfl]
  exact pure _

end Reads

theorem splitWords_leBytes {w : Nat} : ∀ {ns : List Nat}, (∀ n ∈ ns, n < 256 ^ w) →
    ∀ s, Reader.splitWords w ns.length ((ns.map (leBytes w)).flatten ++ s) = ns
  | [], _, _ => rfl
  | n :: ns, h, s => by
      obtain ⟨hn, hns⟩ := List.forall_mem_cons.mp h
      rw [List.length_cons, Reader.splitWords, List.map_cons, List.flatten_cons,
        List.append_assoc, List.take_left' (length_leBytes w n),
        List.drop_left' (length_leBytes w n), leNat_leBytes hn, splitWords_leBytes hns]

theorem length_flatten_leBytes (w : Nat) (ns : List Nat) :
    ((ns.map (leBytes w)).flatten).length = ns.length * w := by
  induction ns with
  | nil => simp
  | cons n ns ih =>
      rw [List.map_cons, List.flatten_cons, List.length_append, length_leBytes, ih,
        List.length_cons, Nat.succ_mul, Nat.add_comm]

/-- The units of an encoded `u16string`. -/
theorem nextUnits_encode (us : List UInt16) (s : List UInt8) :
    Reader.nextUnits us.length ((us.flatMap fun u => leBytes 2 u.toNat) ++ s) = us := by
  have hflat : (us.flatMap fun u => leBytes 2 u.toNat) =
      ((us.map UInt16.toNat).map (leBytes 2)).flatten := by
    rw [List.map_map, List.flatMap_def]
    rfl
  have hlt : ∀ n ∈ us.map UInt16.toNat, n < 256 ^ 2 := by
    intro n hn
    obtain ⟨u, -, rfl⟩ := List.mem_map.mp hn
    exact u.toNat_lt
  unfold Reader.nextUnits
  have hsplit := splitWords_leBytes hlt s
  rw [List.length_map] at hsplit
  rw [hflat, hsplit, List.map_map]
  conv_rhs => rw [← List.map_id us]
  apply List.map_congr_left
  intro u _
  exact UInt16.ofNat_toNat

namespace Reads

variable {B : Build} {d : Nat} {α β : Type}

/-- A `u16string` is read as the UTF-8 form of its code points. -/
theorem readString_utf16 {us : List UInt16} (h : us.length ≤ maxLength) :
    Reads B d Reader.readString (encodeUtf16 us)
      (some ((utf16Codepoints us).flatMap utf8Codepoint)) := by
  have hmax : us.length < 2 ^ 31 := by
    unfold maxLength at h
    omega
  have hlen : (us.flatMap fun u => leBytes 2 u.toNat).length = us.length * 2 := by
    rw [List.length_flatMap]
    simp
  unfold encodeUtf16
  rw [readString_eq]
  refine int32 (by omega) (by omega) (failed ?_)
  rw [if_neg (by decide), if_neg (by omega)]
  cases hus : us with
  | nil =>
      rw [if_pos (by simp)]
      exact pure _
  | cons u us' =>
      rw [← hus]
      have hpos : 0 < us.length := by rw [hus]; exact Nat.succ_pos _
      rw [if_neg (by omega), if_pos (by omega), Int.toNat_natCast]
      refine andThen ?_ (pure _)
      intro r s hr hrest
      have hok : Reader.StringOk us.length 2 r := by
        refine ⟨Nat.le_trans h hr.strings, ?_⟩
        intro _
        rw [Nat.le_div_iff_mul_le (by decide), ← hlen]
        exact CanRead.le_remaining hrest
      obtain ⟨l, hrun⟩ := Reader.readUtf16String_ok (B := B) hr.error hok
      rw [hrest, nextUnits_encode] at hrun
      rw [hrun, hlen, Nat.mul_comm]
      exact ⟨l, rfl⟩

/-! ## Loops -/

/-- A loop that reads one item in each round, and does not stop early. -/
theorem forWhile {body : α → ReadM α} {store : α → β → α} {bss : List (List UInt8)}
    {vs : List β} (h : List.Forall₂ (fun bs v => ∀ a, Reads B d (body a) bs (store a v)) bss vs) :
    ∀ a, Reads B d (Prog.forWhile MemoryPackReader.failed body vs.length a) bss.flatten
      (vs.foldl store a) := by
  induction h with
  | nil => exact fun a => pure a
  | cons hv _ ih =>
      intro a
      have hround := (hv a).bind (ih _)
      intro r s hr hrest
      obtain ⟨l, hrun⟩ := hround r s hr hrest
      have hgo : ¬ r.failed = true := by simp [MemoryPackReader.failed, hr.error]
      rw [List.length_cons, Prog.forWhile, Prog.bind_apply, Prog.get_apply, Res.bind_ret,
        if_neg hgo, Res.after_nil]
      exact ⟨l, hrun⟩

/-- The loop of every collection reader: the elements are all there, so the length is
accepted. -/
theorem readElements {min : Nat} {reserve counted : Bool} {element : ReadM β}
    {store : α → β → α} {bss : List (List UInt8)} {vs : List β} (hlen : vs.length ≤ maxLength)
    (hmin : ∀ bs ∈ bss, min ≤ bs.length) (h : List.Forall₂ (Reads B d element) bss vs) (a : α) :
    Reads B d (Reader.readElements min reserve counted element store a) (encodeCounted bss)
      (vs.foldl store a) := by
  have hcount := h.length_eq
  have hpresent : vs.length * min ≤ bss.flatten.length := by
    rw [← hcount, List.length_flatten]
    have hsum := List.card_nsmul_le_sum (bss.map List.length) min (by simpa using hmin)
    rwa [smul_eq_mul, List.length_map] at hsum
  have hloop : Reads B d (Prog.forWhile MemoryPackReader.failed (fun a => do
      let v ← element
      if counted then Prog.tell (.elements 1)
      return store a v) vs.length a) bss.flatten (vs.foldl store a) := by
    refine forWhile (h.imp fun bs v hv a => hv.andThen ?_) a
    cases counted with
    | true => exact tell _ (pure _)
    | false => exact pure _
  unfold encodeCounted
  rw [hcount]
  refine readCollectionLength hlen hpresent ?_
  rcases Nat.eq_zero_or_pos vs.length with h0 | hpos
  · rw [h0, List.length_eq_zero_iff.mp (hcount.trans h0), List.length_eq_zero_iff.mp h0,
      if_pos (by simp)]
    exact pure a
  · rw [if_neg (by omega), Int.toNat_natCast]
    cases reserve with
    | true => exact get fun r => tell _ hloop
    | false => exact hloop

end Reads

end MemoryPack
