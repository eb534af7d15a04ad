import MemoryPack.Wire.Encode

/-!
# Scrubbed structs

`MEMORYPACK_UNMANAGED_SCRUBBED` copies the listed members of a struct to their
offsets in a zero-filled buffer. Byte by byte (`scrub_eq`): a byte that some member
covers is the struct's, every other byte is zero.
-/

namespace MemoryPack

/-- Some listed member covers the byte at offset `i`. -/
def Covered (members : List (Nat × Nat)) (i : Nat) : Prop :=
  ∃ m ∈ members, m.1 ≤ i ∧ i < m.1 + m.2

instance (members : List (Nat × Nat)) (i : Nat) : Decidable (Covered members i) :=
  inferInstanceAs (Decidable (∃ m ∈ members, m.1 ≤ i ∧ i < m.1 + m.2))

/-- No byte of the struct is padding: either it is copied whole, or its members cover
it. -/
def Unmanaged.PaddingFree (u : Unmanaged) : Prop :=
  ∀ members, u.scrubbed = some members → ∀ i < u.size, Covered members i

section Scrub

variable {memory buf : List UInt8}

/-- Copying one member. -/
theorem getElem?_overwrite_member (hlen : buf.length = memory.length) (m : Nat × Nat) (i : Nat) :
    (overwrite buf m.1 ((memory.drop m.1).take m.2))[i]? =
      if m.1 ≤ i ∧ i < m.1 + m.2 then memory[i]? else buf[i]? := by
  have hmin : (buf.take m.1).length = min m.1 buf.length := List.length_take
  have hcopy : ((memory.drop m.1).take m.2).length = min m.2 (memory.length - m.1) := by
    rw [List.length_take, List.length_drop]
  unfold overwrite
  rcases Nat.lt_or_ge i buf.length with hi | hi
  · by_cases hbefore : i < m.1
    · rw [if_neg (by omega), List.append_assoc, List.getElem?_append_left (by omega),
        List.getElem?_take_of_lt hbefore]
    · by_cases hin : i < m.1 + m.2
      · rw [if_pos (by omega), List.append_assoc, List.getElem?_append_right (by omega),
          List.getElem?_append_left (by omega), hmin, List.getElem?_take_of_lt (by omega),
          List.getElem?_drop]
        congr 1
        omega
      · rw [if_neg (by omega), List.getElem?_append_right (by simp; omega), List.getElem?_drop]
        congr 1
        simp only [List.length_append, List.length_take, List.length_drop]
        omega
  · -- past the end of the struct
    have hnone : (buf.take m.1 ++ (memory.drop m.1).take m.2 ++
        buf.drop (m.1 + ((memory.drop m.1).take m.2).length))[i]? = none := by
      rw [List.getElem?_eq_none_iff]
      simp only [List.length_append, List.length_take, List.length_drop]
      omega
    rw [hnone, List.getElem?_eq_none (by omega), List.getElem?_eq_none hi, ite_self]

theorem length_overwrite_member (hlen : buf.length = memory.length) (m : Nat × Nat) :
    (overwrite buf m.1 ((memory.drop m.1).take m.2)).length = memory.length := by
  simp only [overwrite, List.length_append, List.length_take, List.length_drop]
  omega

/-- Copying every member in turn. -/
theorem getElem?_foldl_overwrite : ∀ (members : List (Nat × Nat)) (buf : List UInt8),
    buf.length = memory.length → ∀ i,
    (members.foldl (fun buf m => overwrite buf m.1 ((memory.drop m.1).take m.2)) buf)[i]? =
      if Covered members i then memory[i]? else buf[i]?
  | [], buf, _, i => by
      rw [if_neg (by rintro ⟨m, hm, -⟩; simp at hm)]
      rfl
  | m :: ms, buf, hlen, i => by
      rw [List.foldl_cons,
        getElem?_foldl_overwrite ms _ (length_overwrite_member hlen m) i,
        getElem?_overwrite_member hlen m i]
      by_cases hms : Covered ms i
      · have hall : Covered (m :: ms) i := by
          obtain ⟨m', hm', h⟩ := hms
          exact ⟨m', List.mem_cons_of_mem _ hm', h⟩
        rw [if_pos hms, if_pos hall]
      · rw [if_neg hms]
        by_cases hm : m.1 ≤ i ∧ i < m.1 + m.2
        · rw [if_pos hm, if_pos ⟨m, List.mem_cons_self, hm⟩]
        · have hnone : ¬ Covered (m :: ms) i := by
            rintro ⟨m', hm', h⟩
            rcases List.mem_cons.mp hm' with rfl | hm'
            · exact hm h
            · exact hms ⟨m', hm', h⟩
          rw [if_neg hm, if_neg hnone]

/-- A covered byte is the struct's own, every other byte is zero. -/
theorem scrub_eq {size : Nat} (members : List (Nat × Nat)) (h : memory.length = size) :
    Writer.scrub size members memory =
      memory.mapIdx fun i b => if Covered members i then b else 0 := by
  apply List.ext_getElem?
  intro i
  unfold Writer.scrub
  rw [getElem?_foldl_overwrite members _ (by rw [List.length_replicate, h]) i,
    List.getElem?_mapIdx]
  by_cases hi : i < size
  · rw [List.getElem?_eq_getElem (h ▸ hi), List.getElem?_replicate_of_lt hi, Option.map_some]
    split <;> rfl
  · rw [List.getElem?_eq_none (by omega), List.getElem?_eq_none (by simpa using hi), ite_self]
    rfl

end Scrub

theorem length_encodeUnmanaged {u : Unmanaged} {bs : List UInt8} (h : bs.length = u.size) :
    (encodeUnmanaged u bs).length = u.size := by
  unfold encodeUnmanaged
  split
  · exact h
  · rw [scrub_eq _ h, List.length_mapIdx, h]

/-- Without padding, the struct is sent as it stands in memory. -/
theorem Unmanaged.PaddingFree.encode_eq {u : Unmanaged} (hu : u.PaddingFree) {bs : List UInt8}
    (h : bs.length = u.size) : encodeUnmanaged u bs = bs := by
  unfold encodeUnmanaged
  split
  · rfl
  · next members hmembers =>
      rw [scrub_eq _ h]
      apply List.ext_getElem?
      intro i
      rw [List.getElem?_mapIdx]
      cases hb : bs[i]? with
      | none => rfl
      | some b =>
          have hi := (List.getElem?_eq_some_iff.mp hb).1
          rw [Option.map_some, if_pos (hu members hmembers i (h ▸ hi))]

end MemoryPack
