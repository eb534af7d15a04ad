import Mathlib.Order.Bounds.Basic
import Mathlib.Data.List.Basic

/-!
# Longest common subsequences

A number is the length of a longest common subsequence of two lists when it is the
greatest of the lengths of their common subsequences. The three rules of the dynamic
program (an empty list, equal heads, different heads) and the two of trimming (a
common prefix, a common suffix) are stated for that notion, over any type: none of
them mentions a table.
-/

namespace CommonSubsequence

variable {α : Type}

/-- The lengths of the lists that are subsequences of both. -/
def commonLengths (as bs : List α) : Set Nat :=
  { n | ∃ cs : List α, cs.Sublist as ∧ cs.Sublist bs ∧ cs.length = n }

/-- `n` is the length of a longest common subsequence. -/
def IsLongest (as bs : List α) (n : Nat) : Prop := IsGreatest (commonLengths as bs) n

theorem IsLongest.unique {as bs : List α} {n m : Nat} (hn : IsLongest as bs n)
    (hm : IsLongest as bs m) : n = m := IsGreatest.unique hn hm

theorem isLongest_iff {as bs : List α} {n : Nat} : IsLongest as bs n ↔
    (∃ cs : List α, cs.Sublist as ∧ cs.Sublist bs ∧ cs.length = n) ∧
      ∀ cs : List α, cs.Sublist as → cs.Sublist bs → cs.length ≤ n := by
  constructor
  · rintro ⟨hmem, hub⟩
    exact ⟨hmem, fun cs ha hb => hub ⟨cs, ha, hb, rfl⟩⟩
  · rintro ⟨hmem, hle⟩
    refine ⟨hmem, ?_⟩
    rintro m ⟨cs, ha, hb, rfl⟩
    exact hle cs ha hb

/-! ## The recurrence -/

theorem isLongest_nil_left (bs : List α) : IsLongest [] bs 0 := by
  rw [isLongest_iff]
  refine ⟨⟨[], List.Sublist.refl _, List.nil_sublist bs, rfl⟩, ?_⟩
  intro cs ha _
  rw [List.sublist_nil.mp ha, List.length_nil]

theorem isLongest_nil_right (as : List α) : IsLongest as [] 0 := by
  rw [isLongest_iff]
  refine ⟨⟨[], List.nil_sublist as, List.Sublist.refl _, rfl⟩, ?_⟩
  intro cs _ hb
  rw [List.sublist_nil.mp hb, List.length_nil]

/-- What is left of a subsequence of `x :: as` is a subsequence of `as`. -/
theorem tail_sublist {x : α} {cs as : List α} (h : cs.Sublist (x :: as)) : cs.tail.Sublist as := by
  cases h with
  | cons _ h => exact (List.tail_sublist cs).trans h
  | cons_cons _ h => exact h

/-- Equal heads can always be matched with each other. -/
theorem IsLongest.cons_cons {as bs : List α} {n : Nat} (x : α) (h : IsLongest as bs n) :
    IsLongest (x :: as) (x :: bs) (n + 1) := by
  rw [isLongest_iff] at h ⊢
  obtain ⟨⟨cs, ha, hb, hlen⟩, hle⟩ := h
  refine ⟨⟨x :: cs, ha.cons_cons x, hb.cons_cons x, by rw [List.length_cons, hlen]⟩, ?_⟩
  intro ds hda hdb
  have htail := hle ds.tail (tail_sublist hda) (tail_sublist hdb)
  rw [List.length_tail] at htail
  omega

/-- Of two different heads at least one stays unmatched. -/
theorem IsLongest.cons_ne {x y : α} {as bs : List α} {n m : Nat} (hne : x ≠ y)
    (hn : IsLongest as (y :: bs) n) (hm : IsLongest (x :: as) bs m) :
    IsLongest (x :: as) (y :: bs) (max n m) := by
  rw [isLongest_iff] at hn hm ⊢
  obtain ⟨⟨cs, hca, hcb, hcl⟩, hcmax⟩ := hn
  obtain ⟨⟨ds, hda, hdb, hdl⟩, hdmax⟩ := hm
  constructor
  · rcases Nat.le_total n m with hle | hle
    · exact ⟨ds, hda, hdb.cons y, by rw [hdl, Nat.max_eq_right hle]⟩
    · exact ⟨cs, hca.cons x, hcb, by rw [hcl, Nat.max_eq_left hle]⟩
  · intro es hea heb
    cases hea with
    | cons _ hea => exact Nat.le_trans (hcmax es hea heb) (Nat.le_max_left n m)
    | cons_cons _ hea =>
        -- the head `x` is used on the left, so `y` is not used on the right
        cases heb with
        | cons _ heb =>
            exact Nat.le_trans (hdmax _ (hea.cons_cons x) heb) (Nat.le_max_right n m)
        | cons_cons _ heb => exact absurd rfl hne

/-! ## Trimming -/

/-- A common prefix is part of some longest common subsequence. -/
theorem IsLongest.append_left {as bs : List α} {n : Nat} (h : IsLongest as bs n) :
    ∀ ps : List α, IsLongest (ps ++ as) (ps ++ bs) (ps.length + n)
  | [] => by
      rw [List.length_nil, Nat.zero_add]
      exact h
  | p :: ps => by
      rw [List.length_cons, Nat.add_right_comm]
      exact (h.append_left ps).cons_cons p

theorem isLongest_reverse {as bs : List α} {n : Nat} :
    IsLongest as.reverse bs.reverse n ↔ IsLongest as bs n := by
  have hset : commonLengths as.reverse bs.reverse = commonLengths as bs := by
    ext k
    constructor
    · rintro ⟨cs, ha, hb, rfl⟩
      exact ⟨cs.reverse, List.sublist_reverse_iff.mp ha, List.sublist_reverse_iff.mp hb,
        List.length_reverse⟩
    · rintro ⟨cs, ha, hb, rfl⟩
      exact ⟨cs.reverse, ha.reverse, hb.reverse, List.length_reverse⟩
  rw [IsLongest, hset]
  rfl

/-- So is a common suffix. -/
theorem IsLongest.append_right {as bs : List α} {n : Nat} (h : IsLongest as bs n) (ps : List α) :
    IsLongest (as ++ ps) (bs ++ ps) (n + ps.length) := by
  have hlength : ps.reverse.length = ps.length := List.length_reverse
  rw [← isLongest_reverse, List.reverse_append, List.reverse_append, Nat.add_comm, ← hlength]
  apply IsLongest.append_left
  exact isLongest_reverse.mpr h

end CommonSubsequence
