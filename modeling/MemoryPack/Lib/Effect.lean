import Mathlib.Data.List.Basic

/-!
# Effectful programs with failure, divergence and a trace

A program reads a fixed configuration `ρ`, transforms a state `σ`, may stop with
an error `ε`, may fail to terminate, and emits a trace of events `β` as it runs.
The trace is what makes statements about *every step* of a run expressible: a
property of all intermediate moments is a property of all events.

Nothing here is about a particular program. `Closed` is the rule the
developments on top of this file use: a property of programs that holds of the
primitives and survives sequencing holds of everything built from them.
-/

namespace Effect

/-- How a run ends. -/
inductive Out (ε α : Type) where
  | ret (a : α)
  | throw (e : ε)
  | diverge
deriving DecidableEq, Repr

/-- A finished run: its outcome, the state it left and the events it emitted. -/
structure Res (σ ε β α : Type) where
  out : Out ε α
  st : σ
  log : List β

def Prog (ρ σ ε β α : Type) : Type := ρ → σ → Res σ ε β α

variable {ρ σ ε β α γ δ : Type}

namespace Res

/-- Put the events of an earlier part of the run in front. -/
def after (l : List β) (r : Res σ ε β α) : Res σ ε β α := ⟨r.out, r.st, l ++ r.log⟩

@[simp] theorem after_out (l : List β) (r : Res σ ε β α) : (r.after l).out = r.out := rfl
@[simp] theorem after_st (l : List β) (r : Res σ ε β α) : (r.after l).st = r.st := rfl
@[simp] theorem after_log (l : List β) (r : Res σ ε β α) :
    (r.after l).log = l ++ r.log := rfl

@[simp] theorem after_mk (l l' : List β) (o : Out ε α) (s : σ) :
    (Res.mk o s l').after l = ⟨o, s, l ++ l'⟩ := rfl

@[simp] theorem after_nil (r : Res σ ε β α) : r.after [] = r := rfl

@[simp] theorem after_after (l l' : List β) (r : Res σ ε β α) :
    (r.after l).after l' = r.after (l' ++ l) := by
  simp [after]

/-- Continue a run that returned; an error or a divergence is final. -/
def bind (r : Res σ ε β α) (k : α → σ → Res σ ε β γ) : Res σ ε β γ :=
  match r with
  | ⟨.ret a, s, l⟩ => (k a s).after l
  | ⟨.throw e, s, l⟩ => ⟨.throw e, s, l⟩
  | ⟨.diverge, s, l⟩ => ⟨.diverge, s, l⟩

@[simp] theorem bind_ret (a : α) (s : σ) (l : List β) (k : α → σ → Res σ ε β γ) :
    (Res.mk (.ret a) s l).bind k = (k a s).after l := rfl
@[simp] theorem bind_throw (e : ε) (s : σ) (l : List β) (k : α → σ → Res σ ε β γ) :
    (Res.mk (.throw e) s l).bind k = ⟨.throw e, s, l⟩ := rfl
@[simp] theorem bind_diverge (s : σ) (l : List β) (k : α → σ → Res σ ε β γ) :
    (Res.mk .diverge s l).bind k = ⟨.diverge, s, l⟩ := rfl

/-- What a run emitted before it went on stays emitted. -/
theorem log_prefix_bind (r : Res σ ε β α) (k : α → σ → Res σ ε β γ) :
    r.log <+: (r.bind k).log := by
  rcases r with ⟨a | e | _, s, l⟩
  · exact List.prefix_append _ _
  · exact List.prefix_rfl
  · exact List.prefix_rfl

end Res

namespace Prog

/-! ## The primitives -/

instance : Monad (Prog ρ σ ε β) where
  pure a := fun _ s => ⟨.ret a, s, []⟩
  bind m f := fun p s => (m p s).bind fun a s' => f a p s'

@[simp] theorem pure_apply (a : α) (p : ρ) (s : σ) :
    (pure a : Prog ρ σ ε β α) p s = ⟨.ret a, s, []⟩ := rfl

@[simp] theorem bind_apply (m : Prog ρ σ ε β α) (f : α → Prog ρ σ ε β γ) (p : ρ) (s : σ) :
    (m >>= f) p s = (m p s).bind fun a s' => f a p s' := rfl

/-- The configuration the program was built for. -/
def ask : Prog ρ σ ε β ρ := fun p s => ⟨.ret p, s, []⟩
def get : Prog ρ σ ε β σ := fun _ s => ⟨.ret s, s, []⟩
def modify (f : σ → σ) : Prog ρ σ ε β Unit := fun _ s => ⟨.ret (), f s, []⟩
def tell (e : β) : Prog ρ σ ε β Unit := fun _ s => ⟨.ret (), s, [e]⟩
def throw (e : ε) : Prog ρ σ ε β α := fun _ s => ⟨.throw e, s, []⟩
def diverge : Prog ρ σ ε β α := fun _ s => ⟨.diverge, s, []⟩

@[simp] theorem ask_apply (p : ρ) (s : σ) :
    (ask : Prog ρ σ ε β ρ) p s = ⟨.ret p, s, []⟩ := rfl
@[simp] theorem get_apply (p : ρ) (s : σ) :
    (get : Prog ρ σ ε β σ) p s = ⟨.ret s, s, []⟩ := rfl
@[simp] theorem modify_apply (f : σ → σ) (p : ρ) (s : σ) :
    (modify f : Prog ρ σ ε β Unit) p s = ⟨.ret (), f s, []⟩ := rfl
@[simp] theorem tell_apply (e : β) (p : ρ) (s : σ) :
    (tell e : Prog ρ σ ε β Unit) p s = ⟨.ret (), s, [e]⟩ := rfl
@[simp] theorem throw_apply (e : ε) (p : ρ) (s : σ) :
    (throw e : Prog ρ σ ε β α) p s = ⟨.throw e, s, []⟩ := rfl
@[simp] theorem diverge_apply (p : ρ) (s : σ) :
    (diverge : Prog ρ σ ε β α) p s = ⟨.diverge, s, []⟩ := rfl

@[simp] theorem ite_apply (c : Prop) [Decidable c] (m n : Prog ρ σ ε β α) (p : ρ) (s : σ) :
    (if c then m else n) p s = if c then m p s else n p s := by
  split <;> rfl

protected theorem bind_assoc (m : Prog ρ σ ε β α) (f : α → Prog ρ σ ε β γ)
    (g : γ → Prog ρ σ ε β δ) : m >>= f >>= g = m >>= fun a => f a >>= g := by
  funext p s
  simp only [bind_apply]
  rcases m p s with ⟨a | e | _, s', l⟩
  · simp only [Res.bind_ret]
    rcases f a p s' with ⟨b | e | _, s'', l'⟩ <;> simp
  · rfl
  · rfl

/-! ## Runs that return -/

/-- `m` run from `s` returns `a` and leaves `s'`. -/
def Returns (m : Prog ρ σ ε β α) (p : ρ) (s : σ) (a : α) (s' : σ) : Prop :=
  (m p s).out = .ret a ∧ (m p s).st = s'

/-- `m` run from `s` stops with the error `e`. -/
def Throws (m : Prog ρ σ ε β α) (p : ρ) (s : σ) (e : ε) : Prop :=
  (m p s).out = .throw e

theorem returns_iff {m : Prog ρ σ ε β α} {p : ρ} {s s' : σ} {a : α} :
    Returns m p s a s' ↔ ∃ l, m p s = ⟨.ret a, s', l⟩ := by
  constructor
  · rintro ⟨h, rfl⟩
    exact ⟨(m p s).log, by rw [← h]⟩
  · rintro ⟨l, h⟩
    exact ⟨by rw [h], by rw [h]⟩

theorem returns_pure {p : ρ} {s : σ} {a : α} :
    Returns (pure a : Prog ρ σ ε β α) p s a s := ⟨rfl, rfl⟩

theorem Returns.bind {m : Prog ρ σ ε β α} {f : α → Prog ρ σ ε β γ} {p : ρ} {s s' s'' : σ}
    {a : α} {b : γ} (hm : Returns m p s a s') (hf : Returns (f a) p s' b s'') :
    Returns (m >>= f) p s b s'' := by
  obtain ⟨l, h⟩ := returns_iff.mp hm
  obtain ⟨l', h'⟩ := returns_iff.mp hf
  exact returns_iff.mpr ⟨l ++ l', by simp [h, h']⟩

/-- A sequence returns only by returning from its first part and then from the
rest: the inversion every argument about a whole run starts with. -/
theorem returns_bind {m : Prog ρ σ ε β α} {f : α → Prog ρ σ ε β γ} {p : ρ} {s s'' : σ}
    {b : γ} : Returns (m >>= f) p s b s'' ↔
      ∃ a s', Returns m p s a s' ∧ Returns (f a) p s' b s'' := by
  constructor
  · rintro ⟨ho, hs⟩
    rcases hm : m p s with ⟨a | e | _, s', l⟩
    · simp only [bind_apply, hm, Res.bind_ret, Res.after_out, Res.after_st] at ho hs
      exact ⟨a, s', ⟨by rw [hm], by rw [hm]⟩, ho, hs⟩
    · simp [hm] at ho
    · simp [hm] at ho
  · rintro ⟨a, s', hm, hf⟩
    exact hm.bind hf

/-- The same inversion with the events: the log is that of the two parts. -/
theorem bind_eq_ret {m : Prog ρ σ ε β α} {f : α → Prog ρ σ ε β γ} {p : ρ} {s s'' : σ}
    {b : γ} {l : List β} (h : (m >>= f) p s = ⟨.ret b, s'', l⟩) :
    ∃ a s' l₁ l₂, m p s = ⟨.ret a, s', l₁⟩ ∧ f a p s' = ⟨.ret b, s'', l₂⟩ ∧ l = l₁ ++ l₂ := by
  rw [bind_apply] at h
  rcases hm : m p s with ⟨a | e | _, s', l₁⟩
  · rw [hm, Res.bind_ret] at h
    rcases hf : f a p s' with ⟨o, t, l₂⟩
    rw [hf, Res.after_mk, Res.mk.injEq] at h
    obtain ⟨rfl, rfl, rfl⟩ := h
    exact ⟨a, s', l₁, l₂, rfl, hf, rfl⟩
  · simp [hm] at h
  · simp [hm] at h

theorem Returns.unique {m : Prog ρ σ ε β α} {p : ρ} {s s₁ s₂ : σ} {a₁ a₂ : α}
    (h₁ : Returns m p s a₁ s₁) (h₂ : Returns m p s a₂ s₂) : a₁ = a₂ ∧ s₁ = s₂ := by
  obtain ⟨h₁, rfl⟩ := h₁
  obtain ⟨h₂, rfl⟩ := h₂
  rw [h₁] at h₂
  exact ⟨by injection h₂, rfl⟩

/-! ## Closure of a property under sequencing -/

/-- A property of programs that holds of `pure` and survives sequencing. -/
structure Closed (P : ∀ {α : Type}, Prog ρ σ ε β α → Prop) : Prop where
  pure : ∀ {α : Type} (a : α), P (Pure.pure a : Prog ρ σ ε β α)
  bind : ∀ {α γ : Type} {m : Prog ρ σ ε β α} {f : α → Prog ρ σ ε β γ},
    P m → (∀ a, P (f a)) → P (m >>= f)

theorem Closed.ite {P : ∀ {α : Type}, Prog ρ σ ε β α → Prop}
    {c : Prop} [Decidable c] {m n : Prog ρ σ ε β α} (hm : c → P m) (hn : ¬ c → P n) :
    P (if c then m else n) := by
  by_cases h : c
  · rw [if_pos h]; exact hm h
  · rw [if_neg h]; exact hn h

/-- Client code: operations `Op` in any order, each chosen after the results of those
before it. -/
inductive Session (Op : ∀ {α : Type}, Prog ρ σ ε β α → Prop) :
    ∀ {α : Type}, Prog ρ σ ε β α → Prop
  | pure {α : Type} (a : α) : Session Op (Pure.pure a)
  | bind {α γ : Type} {m : Prog ρ σ ε β α} {f : α → Prog ρ σ ε β γ} :
      Session Op m → (∀ a, Session Op (f a)) → Session Op (m >>= f)
  | op {α : Type} {m : Prog ρ σ ε β α} : Op m → Session Op m

/-- What holds of every operation holds of all client code. -/
theorem Closed.session {P Op : ∀ {α : Type}, Prog ρ σ ε β α → Prop} (hP : Closed @P)
    (hop : ∀ {α : Type} {m : Prog ρ σ ε β α}, Op m → P m) {m : Prog ρ σ ε β α}
    (h : Session @Op m) : P m := by
  induction h with
  | pure a => exact hP.pure a
  | bind _ _ ihm ihf => exact hP.bind ihm ihf
  | op h => exact hop h

/-- Run the programs one after the other. -/
def runAll : List (Prog ρ σ ε β Unit) → Prog ρ σ ε β Unit
  | [] => pure ()
  | m :: ms => do m; runAll ms

theorem Closed.runAll {P : ∀ {α : Type}, Prog ρ σ ε β α → Prop} (hP : Closed @P) :
    ∀ {ms : List (Prog ρ σ ε β Unit)}, (∀ m ∈ ms, P m) → P (runAll ms)
  | [], _ => hP.pure ()
  | m :: _, h => hP.bind (h m List.mem_cons_self)
      fun _ => hP.runAll fun m' hm' => h m' (List.mem_cons_of_mem _ hm')

/-- `for (i = 0; i < n && !stop; ++i) a = body(a);` -/
def forWhile (stop : σ → Bool) (body : α → Prog ρ σ ε β α) : Nat → α → Prog ρ σ ε β α
  | 0, a => pure a
  | n + 1, a => do
      if stop (← get) then return a
      forWhile stop body n (← body a)

theorem forWhile_succ {stop : σ → Bool} {body : α → Prog ρ σ ε β α} {n : Nat} {a : α} {e : ρ}
    {s : σ} (h : stop s = false) :
    forWhile stop body (n + 1) a e s =
      (body a >>= fun a' => forWhile stop body n a') e s := by
  rw [forWhile]
  simp [h]

end Prog

end Effect
