import MemoryPack.Lib.Effect

/-!
# What a program returns

`Yields I m Q` is a postcondition: from a state with `I` the program only returns values
with `Q`, and returns them in states with `I`. It says nothing of runs that throw or diverge
and nothing of events, which makes it the rule to follow a value with through a program: one
premise for each statement, about the values of the statements before it.
-/

namespace Effect.Prog

variable {ρ σ ε β α γ : Type} {I : σ → Prop} {Q : α → Prop} {R : γ → Prop}

def Yields (I : σ → Prop) (m : Prog ρ σ ε β α) (Q : α → Prop) : Prop :=
  ∀ (p : ρ) (s : σ) (a : α) (s' : σ), I s → Returns m p s a s' → I s' ∧ Q a

namespace Yields

variable {m : Prog ρ σ ε β α} {f : α → Prog ρ σ ε β γ}

theorem pure {a : α} (h : Q a) : Yields I (Pure.pure a : Prog ρ σ ε β α) Q := by
  rintro p s a' s' hs ⟨ho, rfl⟩
  rw [← Out.ret.inj ho]
  exact ⟨hs, h⟩

theorem bind (hm : Yields I m Q) (hf : ∀ a, Q a → Yields I (f a) R) : Yields I (m >>= f) R := by
  intro p s c s'' hs hrun
  obtain ⟨a, s', hfirst, hrest⟩ := returns_bind.mp hrun
  obtain ⟨hs', ha⟩ := hm p s a s' hs hfirst
  exact hf a ha p s' c s'' hs' hrest

theorem weaken (h : Yields I m Q) {Q' : α → Prop} (himp : ∀ a, Q a → Q' a) : Yields I m Q' := by
  intro p s a s' hs hrun
  obtain ⟨hs', ha⟩ := h p s a s' hs hrun
  exact ⟨hs', himp a ha⟩

theorem map (hm : Yields I m Q) {g : α → γ} (hg : ∀ a, Q a → R (g a)) :
    Yields I (do return g (← m) : Prog ρ σ ε β γ) R :=
  hm.bind fun a ha => pure (hg a ha)

theorem ite {c : Prop} [Decidable c] {n : Prog ρ σ ε β α} (hm : c → Yields I m Q)
    (hn : ¬ c → Yields I n Q) : Yields I (if c then m else n) Q := by
  by_cases h : c
  · rw [if_pos h]
    exact hm h
  · rw [if_neg h]
    exact hn h

theorem get {f : σ → Prog ρ σ ε β γ} (hf : ∀ s, I s → Yields I (f s) R) :
    Yields I (Prog.get >>= f) R := by
  intro p s c s' hs hrun
  obtain ⟨a, s₁, ⟨ho, rfl⟩, hrest⟩ := returns_bind.mp hrun
  obtain rfl := Out.ret.inj ho
  exact hf s hs p s c s' hs hrest

theorem ask {f : ρ → Prog ρ σ ε β γ} (hf : ∀ p, Yields I (f p) R) :
    Yields I (Prog.ask >>= f) R := by
  intro p s c s' hs hrun
  obtain ⟨a, s₁, ⟨ho, rfl⟩, hrest⟩ := returns_bind.mp hrun
  exact hf a p s c s' hs hrest

theorem tell (e : β) {n : Prog ρ σ ε β γ} (hn : Yields I n R) :
    Yields I (do Prog.tell e; n) R := by
  intro p s c s' hs hrun
  obtain ⟨a, s₁, ⟨-, rfl⟩, hrest⟩ := returns_bind.mp hrun
  exact hn p s c s' hs hrest

theorem modify {g : σ → σ} (hg : ∀ s, I s → I (g s)) {n : Prog ρ σ ε β γ} (hn : Yields I n R) :
    Yields I (do Prog.modify g; n) R := by
  intro p s c s' hs hrun
  obtain ⟨a, s₁, ⟨-, rfl⟩, hrest⟩ := returns_bind.mp hrun
  exact hn p (g s) c s' (hg s hs) hrest

theorem diverge : Yields I (Prog.diverge : Prog ρ σ ε β α) Q := by
  rintro p s a s' - ⟨ho, -⟩
  simp at ho

/-- `J k` holds of the loop variable after `k` rounds; the loop may stop early. -/
theorem forWhile {J : Nat → α → Prop} {stop : σ → Bool} {body : α → Prog ρ σ ε β α}
    (hbody : ∀ k a, J k a → Yields I (body a) (J (k + 1))) : ∀ (n k : Nat) (a : α), J k a →
      Yields I (Prog.forWhile stop body n a) fun a' => ∃ j, j ≤ k + n ∧ J j a'
  | 0, k, a, ha => pure ⟨k, Nat.le_refl k, ha⟩
  | n + 1, k, a, ha => by
      rw [Prog.forWhile]
      refine get fun s _ => ite (fun _ => pure ⟨k, Nat.le_add_right k _, ha⟩) fun _ => ?_
      refine (hbody k a ha).bind fun a' ha' => ?_
      refine (forWhile hbody n (k + 1) a' ha').weaken fun a'' => ?_
      rintro ⟨j, hj, ha''⟩
      exact ⟨j, by omega, ha''⟩

end Yields

end Effect.Prog
