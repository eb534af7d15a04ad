import Mathlib.Data.List.Basic

/-!
# Framed streams

A framing finds the first frame of a stream, or says that it is not complete yet, or
that the stream is broken. All three answers are stable: more input at the end
changes neither a frame that was found nor a broken stream. That is enough for the
frames of a stream not to depend on how it arrives (`split_append`).
-/

namespace Framing

/-- What a stream starts with. -/
inductive Frame (α β : Type) where
  | item (a : α) (rest : List β)
  | incomplete
  | broken

end Framing

/-- A way to cut a stream of `β` into frames of `α`. -/
structure Framing (α β : Type) where
  next : List β → Framing.Frame α β
  shrinks : ∀ {x a rest}, next x = .item a rest → rest.length < x.length
  item_append : ∀ {x a rest}, next x = .item a rest → ∀ y, next (x ++ y) = .item a (rest ++ y)
  broken_append : ∀ {x}, next x = .broken → ∀ y, next (x ++ y) = .broken

namespace Framing

variable {α β : Type}

/-- The frames of a stream, and what is left behind the last one; nothing is left of a
broken stream. -/
def split (F : Framing α β) (x : List β) : List α × Option (List β) :=
  match _h : F.next x with
  | .item a rest => (a :: (F.split rest).1, (F.split rest).2)
  | .incomplete => ([], some x)
  | .broken => ([], none)
termination_by x.length
decreasing_by all_goals exact F.shrinks _h

section Split

variable (F : Framing α β) {x y rest : List β} {a : α}

theorem split_item (h : F.next x = .item a rest) :
    F.split x = (a :: (F.split rest).1, (F.split rest).2) := by
  rw [split]
  split
  · next heq =>
      rw [h] at heq
      obtain ⟨rfl, rfl⟩ := Frame.item.inj heq
      rfl
  · next heq => simp [h] at heq
  · next heq => simp [h] at heq

theorem split_incomplete (h : F.next x = .incomplete) : F.split x = ([], some x) := by
  rw [split]
  split
  · next heq => simp [h] at heq
  · rfl
  · next heq => simp [h] at heq

theorem split_broken (h : F.next x = .broken) : F.split x = ([], none) := by
  rw [split]
  split
  · next heq => simp [h] at heq
  · next heq => simp [h] at heq
  · rfl

/-- The frames of a stream that goes on: first the frames of what has arrived, then
the frames of what was left of it together with the rest. -/
theorem split_append (x y : List β) :
    (∀ as rest, F.split x = (as, some rest) →
      F.split (x ++ y) = (as ++ (F.split (rest ++ y)).1, (F.split (rest ++ y)).2)) ∧
    (∀ as, F.split x = (as, none) → F.split (x ++ y) = (as, none)) := by
  induction hn : x.length using Nat.strongRecOn generalizing x with
  | ind n ih =>
      subst hn
      cases hx : F.next x with
      | item a x' =>
          obtain ⟨hsome, hnone⟩ := ih _ (F.shrinks hx) x' rfl
          rw [F.split_item hx, F.split_item (F.item_append hx y)]
          constructor
          · rintro as rest h
            obtain ⟨rfl, hrest⟩ := Prod.mk.inj h
            rw [hsome _ rest (Prod.ext rfl hrest)]
            rfl
          · rintro as h
            obtain ⟨rfl, hrest⟩ := Prod.mk.inj h
            rw [hnone _ (Prod.ext rfl hrest)]
      | incomplete =>
          rw [F.split_incomplete hx]
          constructor
          · rintro as rest h
            obtain ⟨rfl, rfl⟩ : [] = as ∧ x = rest := by simpa using h
            rfl
          · rintro as h
            simp at h
      | broken =>
          rw [F.split_broken hx, F.split_broken (F.broken_append hx y)]
          constructor
          · rintro as rest h
            simp at h
          · rintro as h
            exact h

/-- What is left of a stream holds no complete frame. -/
theorem next_of_split (x : List β) : ∀ rest, (F.split x).2 = some rest →
    F.next rest = .incomplete := by
  induction hn : x.length using Nat.strongRecOn generalizing x with
  | ind n ih =>
      subst hn
      intro rest hrest
      cases hx : F.next x with
      | item a x' =>
          rw [F.split_item hx] at hrest
          exact ih _ (F.shrinks hx) x' rfl rest hrest
      | incomplete =>
          rw [F.split_incomplete hx] at hrest
          exact Option.some.inj hrest ▸ hx
      | broken =>
          rw [F.split_broken hx] at hrest
          exact absurd hrest (by simp)

/-- Where every frame takes at least `k` items of the stream, `n` frames take `n * k`. -/
theorem length_split_mul_le {k : Nat}
    (hk : ∀ {x a rest}, F.next x = .item a rest → rest.length + k ≤ x.length) (x : List β) :
    (F.split x).1.length * k ≤ x.length := by
  induction hn : x.length using Nat.strongRecOn generalizing x with
  | ind n ih =>
      subst hn
      cases hx : F.next x with
      | item a rest =>
          have hrest := ih _ (F.shrinks hx) rest rfl
          have hstep := hk hx
          rw [F.split_item hx, List.length_cons, Nat.succ_mul]
          omega
      | incomplete =>
          rw [F.split_incomplete hx, List.length_nil, Nat.zero_mul]
          exact Nat.zero_le _
      | broken =>
          rw [F.split_broken hx, List.length_nil, Nat.zero_mul]
          exact Nat.zero_le _

end Split

end Framing
