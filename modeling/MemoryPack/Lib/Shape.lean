import MemoryPack.Lib.Layout

/-!
# Bytes of an object

An object is a scalar or a struct of objects. Its bytes are those of its scalars and the
padding between them. There is none exactly if every struct in it has members whose sizes
add up to its own (`dense_iff`).
-/

namespace Layout

inductive Shape where
  | scalar (e : Extent)
  | struct (pack1 : Bool) (members : List Shape)
deriving Repr

namespace Shape

mutual
def extent : Shape → Extent
  | .scalar e => e
  | .struct pack1 ms => Layout.struct (packedExtents pack1 ms)

/-- The members as fields of a struct. -/
def packedExtents (pack1 : Bool) : List Shape → List Extent
  | [] => []
  | m :: ms => m.extent.packed pack1 :: packedExtents pack1 ms
end

def size (s : Shape) : Nat := s.extent.size

/-- Where a member stands behind `o` bytes. -/
def place (pack1 : Bool) (o : Nat) (m : Shape) : Nat := roundUp o (m.extent.packed pack1).align

mutual
/-- The byte at `i` belongs to a scalar. -/
def isLeaf : Shape → Nat → Bool
  | .scalar e, i => decide (i < e.size)
  | .struct pack1 ms, i => isLeafFrom pack1 0 ms i

def isLeafFrom (pack1 : Bool) : Nat → List Shape → Nat → Bool
  | _, [], _ => false
  | o, m :: ms, i =>
      (decide (m.place pack1 o ≤ i) && m.isLeaf (i - m.place pack1 o)) ||
        isLeafFrom pack1 (m.place pack1 o + m.size) ms i
end

/-- The byte at `i` belongs to a member. -/
def CoveredFrom (pack1 : Bool) : Nat → List Shape → Nat → Prop
  | _, [], _ => False
  | o, m :: ms, i =>
      (m.place pack1 o ≤ i ∧ i < m.place pack1 o + m.size) ∨
        CoveredFrom pack1 (m.place pack1 o + m.size) ms i

mutual
/-- No struct in it is empty or larger than its members. -/
def Dense : Shape → Prop
  | .scalar _ => True
  | .struct pack1 ms =>
      (ms ≠ [] ∧ (ms.map size).sum = (Layout.struct (packedExtents pack1 ms)).size) ∧ AllDense ms

def AllDense : List Shape → Prop
  | [] => True
  | m :: ms => m.Dense ∧ AllDense ms
end

section

variable {pack1 : Bool} {o i total : Nat} {m : Shape} {ms : List Shape}

theorem packed_size (pack1 : Bool) (e : Extent) : (e.packed pack1).size = e.size := by
  unfold Extent.packed
  split <;> rfl

theorem packedExtents_eq (pack1 : Bool) (ms : List Shape) :
    packedExtents pack1 ms = (ms.map extent).map (Extent.packed pack1) := by
  induction ms with
  | nil => rfl
  | cons m ms ih => rw [packedExtents, ih, List.map_cons, List.map_cons]

theorem allDense_iff : AllDense ms ↔ ∀ m ∈ ms, m.Dense := by
  induction ms with
  | nil => simp [AllDense]
  | cons m ms ih => rw [AllDense, ih, List.forall_mem_cons]

theorem le_place (pack1 : Bool) (o : Nat) (m : Shape) : o ≤ m.place pack1 o :=
  le_roundUp (Extent.align_pos _)

theorem stop_cons (pack1 : Bool) (o : Nat) (m : Shape) (ms : List Shape) :
    stop o (packedExtents pack1 (m :: ms)) =
      stop (m.place pack1 o + m.size) (packedExtents pack1 ms) := by
  rw [packedExtents, stop, packed_size]
  rfl

/-! ## Members -/

theorem le_of_coveredFrom (h : CoveredFrom pack1 o ms i) : o ≤ i := by
  induction ms generalizing o with
  | nil => exact h.elim
  | cons m ms ih =>
    have hplace := le_place pack1 o m
    rcases h with h | h
    · exact hplace.trans h.1
    · exact hplace.trans ((Nat.le_add_right _ _).trans (ih h))

theorem lt_stop_of_coveredFrom (h : CoveredFrom pack1 o ms i) :
    i < stop o (packedExtents pack1 ms) := by
  induction ms generalizing o with
  | nil => exact h.elim
  | cons m ms ih =>
    rw [stop_cons]
    rcases h with h | h
    · exact Nat.lt_of_lt_of_le h.2 (le_stop _ _)
    · exact ih h

theorem stop_le_size (h : ms ≠ []) : stop 0 (packedExtents pack1 ms) ≤
    (Shape.struct pack1 ms).size := by
  have hne : packedExtents pack1 ms ≠ [] := by
    rw [packedExtents_eq]
    simpa using h
  rw [size, extent, (struct_of_ne_nil hne).1]
  exact le_roundUp (Nat.two_pow_pos _)

theorem sum_le_stop (pack1 : Bool) (o : Nat) (ms : List Shape) :
    o + (ms.map size).sum ≤ stop o (packedExtents pack1 ms) := by
  induction ms generalizing o with
  | nil => exact le_rfl
  | cons m ms ih =>
    rw [stop_cons, List.map_cons, List.sum_cons, ← Nat.add_assoc]
    refine Nat.le_trans ?_ (ih _)
    exact Nat.add_le_add_right (Nat.add_le_add_right (le_place pack1 o m) _) _

/-- The members cover everything up to `total` exactly if their sizes add up to it. -/
theorem coveredFrom_all_iff (hstop : stop o (packedExtents pack1 ms) ≤ total) :
    (∀ i, o ≤ i → i < total → CoveredFrom pack1 o ms i) ↔ o + (ms.map size).sum = total := by
  induction ms generalizing o with
  | nil =>
    have hle : o ≤ total := hstop
    constructor
    · intro h
      refine Nat.le_antisymm hle (Nat.le_of_not_lt fun hlt => ?_)
      exact h o le_rfl hlt
    · rintro rfl i hi hlt
      exact absurd hi (Nat.not_le_of_lt hlt)
  | cons m ms ih =>
    rw [stop_cons] at hstop
    have hplace := le_place pack1 o m
    have hsum := (sum_le_stop pack1 (m.place pack1 o + m.size) ms).trans hstop
    have hpos : 0 < m.size := m.extent.pos
    rw [List.map_cons, List.sum_cons]
    constructor
    · intro h
      have hfirst : m.place pack1 o = o := by
        by_contra hne
        rcases h o le_rfl (by omega) with h | h
        · omega
        · have := le_of_coveredFrom h
          omega
      have hrest := (ih hstop).mp fun i hi hlt =>
        (h i (by omega) hlt).resolve_left fun h => absurd h.2 (Nat.not_lt_of_le hi)
      omega
    · intro h i hi hlt
      have hfirst : m.place pack1 o = o := by omega
      by_cases hin : i < m.place pack1 o + m.size
      · exact .inl ⟨by omega, hin⟩
      · exact .inr ((ih hstop).mpr (by omega) i (Nat.le_of_not_lt hin) hlt)

mutual
theorem lt_size_of_isLeaf (s : Shape) {i : Nat} (h : s.isLeaf i = true) : i < s.size := by
  match s with
  | .scalar e =>
    rw [isLeaf, decide_eq_true_eq] at h
    rw [size, extent]
    exact h
  | .struct pack1 ms =>
    rw [isLeaf] at h
    have hcovered := coveredFrom_of_isLeafFrom ms h
    have hne : ms ≠ [] := by
      rintro rfl
      exact hcovered
    exact Nat.lt_of_lt_of_le (lt_stop_of_coveredFrom hcovered) (stop_le_size hne)

theorem coveredFrom_of_isLeafFrom (ms : List Shape) {pack1 : Bool} {o i : Nat}
    (h : isLeafFrom pack1 o ms i = true) : CoveredFrom pack1 o ms i := by
  match ms with
  | [] =>
    rw [isLeafFrom] at h
    cases h
  | m :: ms =>
    rw [isLeafFrom, Bool.or_eq_true, Bool.and_eq_true, decide_eq_true_eq] at h
    rcases h with ⟨hplace, hleaf⟩ | h
    · have hlt := lt_size_of_isLeaf m hleaf
      exact .inl ⟨hplace, by omega⟩
    · exact .inr (coveredFrom_of_isLeafFrom ms h)
end

/-- Of a covered byte, the member it belongs to says whether it is a scalar's. -/
theorem leaves_of_covered_iff :
    (∀ i, CoveredFrom pack1 o ms i → isLeafFrom pack1 o ms i = true) ↔
      ∀ m ∈ ms, ∀ i < m.size, m.isLeaf i = true := by
  induction ms generalizing o with
  | nil => simp [CoveredFrom]
  | cons m ms ih =>
    rw [List.forall_mem_cons, ← @ih (m.place pack1 o + m.size)]
    have hhead : ∀ i < m.size,
        isLeafFrom pack1 o (m :: ms) (m.place pack1 o + i) = m.isLeaf i := by
      intro i hi
      have hrest : isLeafFrom pack1 (m.place pack1 o + m.size) ms (m.place pack1 o + i) = false := by
        rw [Bool.eq_false_iff]
        intro h
        have := le_of_coveredFrom (coveredFrom_of_isLeafFrom ms h)
        omega
      rw [isLeafFrom, hrest, Nat.add_sub_cancel_left, decide_eq_true (Nat.le_add_right _ _)]
      simp
    have htail : ∀ i, m.place pack1 o + m.size ≤ i →
        isLeafFrom pack1 o (m :: ms) i = isLeafFrom pack1 (m.place pack1 o + m.size) ms i := by
      intro i hi
      have hout : m.isLeaf (i - m.place pack1 o) = false := by
        rw [Bool.eq_false_iff]
        intro h
        have := lt_size_of_isLeaf m h
        omega
      rw [isLeafFrom, hout, Bool.and_false, Bool.false_or]
    constructor
    · intro h
      constructor
      · intro i hi
        rw [← hhead i hi]
        exact h _ (.inl ⟨Nat.le_add_right _ _, Nat.add_lt_add_left hi _⟩)
      · intro i hi
        rw [← htail i (le_of_coveredFrom hi)]
        exact h i (.inr hi)
    · rintro ⟨hm, hms⟩ i (⟨hle, hlt⟩ | hi)
      · obtain ⟨j, rfl⟩ := Nat.exists_eq_add_of_le hle
        rw [hhead j (Nat.lt_of_add_lt_add_left hlt)]
        exact hm j (Nat.lt_of_add_lt_add_left hlt)
      · rw [htail i (le_of_coveredFrom hi)]
        exact hms i hi

/-! ## Dense objects -/

/-- Without padding between the members and without padding in them. -/
theorem struct_leaves_iff : (∀ i < (Shape.struct pack1 ms).size, isLeafFrom pack1 0 ms i = true) ↔
    (ms ≠ [] ∧ (ms.map size).sum = (Shape.struct pack1 ms).size) ∧
      ∀ m ∈ ms, ∀ i < m.size, m.isLeaf i = true := by
  by_cases hne : ms = []
  · subst hne
    have hone : (Shape.struct pack1 []).size = 1 := rfl
    rw [hone]
    simp [isLeafFrom]
  · rw [← leaves_of_covered_iff (o := 0), and_iff_right hne]
    have hgap := coveredFrom_all_iff (@stop_le_size pack1 ms hne)
    rw [Nat.zero_add] at hgap
    rw [← hgap]
    constructor
    · intro h
      refine ⟨fun i _ hi => coveredFrom_of_isLeafFrom ms (h i hi), fun i hi => h i ?_⟩
      exact Nat.lt_of_lt_of_le (lt_stop_of_coveredFrom hi) (stop_le_size hne)
    · rintro ⟨hcovered, hleaves⟩ i hi
      exact hleaves i (hcovered i (Nat.zero_le i) hi)

mutual
theorem dense_iff (s : Shape) : s.Dense ↔ ∀ i < s.size, s.isLeaf i = true := by
  match s with
  | .scalar e => simp [Dense, isLeaf, size, extent]
  | .struct pack1 ms =>
    rw [Dense, allDense_leaves_iff ms]
    simp only [isLeaf]
    exact struct_leaves_iff.symm

theorem allDense_leaves_iff (ms : List Shape) :
    AllDense ms ↔ ∀ m ∈ ms, ∀ i < m.size, m.isLeaf i = true := by
  match ms with
  | [] => simp [AllDense]
  | m :: ms => rw [AllDense, dense_iff m, allDense_leaves_iff ms, List.forall_mem_cons]
end

theorem stop_of_pack1 (o : Nat) (ms : List Shape) :
    stop o (packedExtents true ms) = o + (ms.map size).sum := by
  induction ms generalizing o with
  | nil => rfl
  | cons m ms ih =>
    have hplace : m.place true o = o := roundUp_of_dvd (Extent.align_pos _) (Nat.one_dvd o)
    rw [stop_cons, ih, hplace, List.map_cons, List.sum_cons, Nat.add_assoc]

/-- Packed members leave no gaps. -/
theorem sum_of_pack1 (hne : ms ≠ []) : (ms.map size).sum = (Shape.struct true ms).size := by
  have hne' : packedExtents true ms ≠ [] := by
    rw [packedExtents_eq]
    simpa using hne
  have hlog : maxLog (packedExtents true ms) ≤ 0 := by
    refine maxLog_le fun e he => ?_
    rw [packedExtents_eq] at he
    obtain ⟨f, _, rfl⟩ := List.mem_map.mp he
    exact le_rfl
  rw [size, extent, (struct_of_ne_nil hne').1, Nat.le_zero.mp hlog, Nat.pow_zero,
    roundUp_of_dvd Nat.one_pos (Nat.one_dvd _), stop_of_pack1, Nat.zero_add]

end

end Shape

end Layout
