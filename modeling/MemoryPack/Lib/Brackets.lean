import Mathlib.Algebra.Order.Group.Int

/-!
# Bracketed texts

Every letter has a weight: an opening bracket 1, a closing one -1, any other letter 0. A
text is closed if its brackets match and its separators stand between brackets only. Closed
texts that are joined by separators can be told apart again, from the left (`split_left`)
and from the right (`split_right`).
-/

namespace Brackets

variable {α : Type} {weight : α → Int} {sep sep' : α → Prop} {u v : List α} {a b : α}

/-- How many brackets are open behind a text. -/
def depth (weight : α → Int) (u : List α) : Int := u.foldr (fun a n => weight a + n) 0

@[simp] theorem depth_nil : depth weight [] = 0 := rfl

@[simp] theorem depth_cons (a : α) (u : List α) :
    depth weight (a :: u) = weight a + depth weight u := rfl

@[simp] theorem depth_append (u v : List α) :
    depth weight (u ++ v) = depth weight u + depth weight v := by
  induction u with
  | nil => rw [List.nil_append, depth_nil, zero_add]
  | cons a u ih => rw [List.cons_append, depth_cons, depth_cons, ih, add_assoc]

structure Balanced (weight : α → Int) (u : List α) : Prop where
  depth_eq : depth weight u = 0
  nonneg : ∀ p s, u = p ++ s → 0 ≤ depth weight p

/-- Matched brackets, and every separator between brackets. -/
structure Closed (weight : α → Int) (sep : α → Prop) (u : List α) : Prop where
  balanced : Balanced weight u
  enclosed : ∀ p a s, u = p ++ a :: s → sep a → 0 < depth weight p

namespace Balanced

theorem nil : Balanced weight [] :=
  ⟨rfl, fun p s h => by
    obtain ⟨rfl, -⟩ := List.append_eq_nil_iff.mp h.symm
    exact le_refl 0⟩

theorem append (hu : Balanced weight u) (hv : Balanced weight v) : Balanced weight (u ++ v) where
  depth_eq := by rw [depth_append, hu.depth_eq, hv.depth_eq, add_zero]
  nonneg := fun p s h => by
    rcases List.append_eq_append_iff.mp h with ⟨m, rfl, hs⟩ | ⟨m, hp, -⟩
    · rw [depth_append, hu.depth_eq, zero_add]
      exact hv.nonneg m s hs
    · exact hu.nonneg p m hp

theorem single (ha : weight a = 0) : Balanced weight [a] where
  depth_eq := by rw [depth_cons, ha, depth_nil, add_zero]
  nonneg := fun p s h => by
    cases p with
    | nil => exact le_refl 0
    | cons b p =>
      obtain ⟨rfl, hp⟩ := List.cons.inj h
      obtain ⟨rfl, -⟩ := List.append_eq_nil_iff.mp hp.symm
      rw [depth_cons, ha, depth_nil, add_zero]

/-- Letters that are no brackets. -/
theorem of_forall (h : ∀ a ∈ u, weight a = 0) : Balanced weight u := by
  induction u with
  | nil => exact nil
  | cons a u ih =>
    obtain ⟨ha, hu⟩ := List.forall_mem_cons.mp h
    exact (single ha).append (ih hu)

end Balanced

namespace Closed

theorem of_forall (hweight : ∀ a ∈ u, weight a = 0) (hsep : ∀ a ∈ u, ¬ sep a) :
    Closed weight sep u where
  balanced := .of_forall hweight
  enclosed := fun p a s h ha => by
    have hmem : a ∈ u := by
      rw [h]
      exact List.mem_append_right p List.mem_cons_self
    exact absurd ha (hsep a hmem)

theorem append (hu : Closed weight sep u) (hv : Closed weight sep v) :
    Closed weight sep (u ++ v) where
  balanced := hu.balanced.append hv.balanced
  enclosed := fun p a s h ha => by
    rcases List.append_eq_append_iff.mp h with ⟨m, rfl, hs⟩ | ⟨m, hp, hm⟩
    · rw [depth_append, hu.balanced.depth_eq, zero_add]
      exact hv.enclosed m a s hs ha
    · cases m with
      | nil =>
        rw [List.append_nil] at hp
        rw [← hp, hu.balanced.depth_eq]
        have hfirst := hv.enclosed [] a s hm.symm ha
        rwa [depth_nil] at hfirst
      | cons b m =>
        obtain ⟨rfl, -⟩ := List.cons.inj hm
        exact hu.enclosed p a m hp ha

/-- Between brackets every separator may stand. -/
theorem enclose (ha : weight a = 1) (hb : weight b = -1) (hsepA : ¬ sep a) (hsepB : ¬ sep b)
    (hu : Balanced weight u) : Closed weight sep (a :: (u ++ [b])) where
  balanced :=
    { depth_eq := by
        rw [depth_cons, depth_append, depth_cons, depth_nil, hu.depth_eq, ha, hb]
        rfl
      nonneg := fun p s h => by
        cases p with
        | nil => exact le_refl 0
        | cons c p =>
          obtain ⟨rfl, hp⟩ := List.cons.inj h
          rw [depth_cons, ha]
          rcases List.append_eq_append_iff.mp hp with ⟨m, rfl, hm⟩ | ⟨m, hp, -⟩
          · -- all of `u`, and the closing bracket or not
            rw [depth_append, hu.depth_eq, zero_add]
            cases m with
            | nil => exact zero_le_one
            | cons d m =>
              obtain ⟨rfl, hm⟩ := List.cons.inj hm
              cases m with
              | nil =>
                rw [depth_cons, depth_nil, hb]
                exact le_refl 0
              | cons e m => cases hm
          · have := hu.nonneg p m hp
            omega }
  enclosed := fun p c s h hc => by
    cases p with
    | nil =>
      obtain ⟨rfl, -⟩ := List.cons.inj h
      exact absurd hc hsepA
    | cons d p =>
      obtain ⟨rfl, hp⟩ := List.cons.inj h
      rw [depth_cons, ha]
      rcases List.append_eq_append_iff.mp hp with ⟨m, rfl, hm⟩ | ⟨m, hp, -⟩
      · cases m with
        | nil =>
          obtain ⟨rfl, -⟩ := List.cons.inj hm
          exact absurd hc hsepB
        | cons e m =>
          obtain ⟨-, hm⟩ := List.cons.inj hm
          cases m <;> cases hm
      · have := hu.nonneg p m hp
        omega

theorem mono (h : ∀ a, sep' a → sep a) (hu : Closed weight sep u) : Closed weight sep' u :=
  ⟨hu.balanced, fun p a s hp ha => hu.enclosed p a s hp (h a ha)⟩

end Closed

/-! ## Taking texts apart -/

section Split

variable {u' l l' r r' : List α} (hu : Closed weight sep u) (hu' : Closed weight sep u')

/-- A closed text cannot go on behind a separator. -/
theorem no_separator_at {m : List α} (hu : Balanced weight u) (hv : Closed weight sep v)
    (h : v = u ++ a :: m) : ¬ sep a := by
  intro ha
  have hpos := hv.enclosed u a m h ha
  rw [hu.depth_eq] at hpos
  exact absurd hpos (lt_irrefl 0)

include hu hu' in
theorem split_left (hr : ∀ a ∈ r.head?, sep a) (hr' : ∀ a ∈ r'.head?, sep a)
    (h : u ++ r = u' ++ r') : u = u' ∧ r = r' := by
  rcases List.append_eq_append_iff.mp h with ⟨m, hm, hmr⟩ | ⟨m, hm, hmr⟩
  · cases m with
    | nil => exact ⟨by rw [hm, List.append_nil], hmr⟩
    | cons a m =>
      exact absurd (hr a (by rw [hmr]; rfl)) (no_separator_at hu.balanced hu' hm)
  · cases m with
    | nil => exact ⟨by rw [hm, List.append_nil], hmr.symm⟩
    | cons a m =>
      exact absurd (hr' a (by rw [hmr]; rfl)) (no_separator_at hu'.balanced hu hm)

/-- What is left of a separator is balanced if what is right of it is. -/
theorem balanced_before {m s : List α} (hv : Closed weight sep v) (hs : depth weight s = 0)
    (ha : weight a = 0) (h : v = m ++ a :: s) : ¬ sep a := by
  intro hsep
  have hpos := hv.enclosed m a s h hsep
  have hzero := hv.balanced.depth_eq
  rw [h, depth_append, depth_cons, ha, hs] at hzero
  omega

include hu hu' in
theorem split_right (hl : ∀ a ∈ l.getLast?, sep a ∧ weight a = 0)
    (hl' : ∀ a ∈ l'.getLast?, sep a ∧ weight a = 0) (h : l ++ u = l' ++ u') :
    l = l' ∧ u = u' := by
  rcases List.append_eq_append_iff.mp h with ⟨m, hm, hmu⟩ | ⟨m, hm, hmu⟩
  · rcases List.eq_nil_or_concat m with rfl | ⟨m, a, rfl⟩
    · exact ⟨by rw [hm, List.append_nil], hmu⟩
    · obtain ⟨hsep, hzero⟩ := hl' a (by rw [hm]; simp)
      rw [List.concat_append] at hmu
      exact absurd hsep (balanced_before hu hu'.balanced.depth_eq hzero hmu)
  · rcases List.eq_nil_or_concat m with rfl | ⟨m, a, rfl⟩
    · exact ⟨by rw [hm, List.append_nil], hmu.symm⟩
    · obtain ⟨hsep, hzero⟩ := hl a (by rw [hm]; simp)
      rw [List.concat_append] at hmu
      exact absurd hsep (balanced_before hu' hu.balanced.depth_eq hzero hmu)

end Split

end Brackets
