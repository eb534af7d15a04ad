import MemoryPack.Reader.Nesting

/-!
# Decoding into a target that is not fresh

`Deserialize(data, size, out)` and `reader.Read(out)` fill an existing object. The
control flow never looks at what the target held, so an in-place decode and a
fresh one run in step; their results differ exactly in the parts the input does
not overwrite: members past the sender's count, a VersionTolerant object sent as
null, a union with a tag nobody declares. The `kept` events of a run are the
contents of those parts.
-/

namespace MemoryPack

open Effect

/-! ## Runs in step -/

/-- An event without the contents it may carry. -/
def ReadEvent.shape : ReadEvent → ReadEvent
  | .kept _ => .kept .none
  | e => e

/-- The contents a run left in place. -/
def keptOf : List ReadEvent → List Val
  | [] => []
  | .kept v :: l => v :: keptOf l
  | _ :: l => keptOf l

theorem keptOf_append (l₁ l₂ : List ReadEvent) :
    keptOf (l₁ ++ l₂) = keptOf l₁ ++ keptOf l₂ := by
  induction l₁ with
  | nil => rfl
  | cons e l ih => cases e <;> simp [keptOf, ih]

theorem length_keptOf_shape (l : List ReadEvent) :
    (keptOf (l.map ReadEvent.shape)).length = (keptOf l).length := by
  induction l with
  | nil => rfl
  | cons e l ih => cases e <;> simp [keptOf, ReadEvent.shape, ih]

/-- Appending logs of the same shapes: the kept contents agree exactly when they do
in both parts. -/
theorem keptOf_append_inj {l₁ l₂ l₁' l₂' : List ReadEvent}
    (h : l₁.map ReadEvent.shape = l₁'.map ReadEvent.shape) :
    keptOf (l₁ ++ l₂) = keptOf (l₁' ++ l₂') ↔
      keptOf l₁ = keptOf l₁' ∧ keptOf l₂ = keptOf l₂' := by
  have hlen : (keptOf l₁).length = (keptOf l₁').length := by
    rw [← length_keptOf_shape l₁, h, length_keptOf_shape]
  rw [keptOf_append, keptOf_append]
  exact ⟨fun heq => List.append_inj heq hlen, fun ⟨h₁, h₂⟩ => by rw [h₁, h₂]⟩

/-- Outcomes that differ at most in the value returned. -/
def OutMatch {α : Type} (E : α → α → Prop) : Out MemoryPackError α → Out MemoryPackError α → Prop
  | .ret a, .ret b => E a b
  | .throw c, .throw c' => c = c'
  | .diverge, .diverge => True
  | _, _ => False

/-- Two runs from `r` in step. `p` says whether what they were given agreed; where
they did not fail, their results agree exactly when that and the kept contents do. -/
structure InStep {α : Type} (r : MemoryPackReader) (p : Prop) (E : α → α → Prop)
    (x y : Res MemoryPackReader MemoryPackError ReadEvent α) : Prop where
  st : x.st = y.st
  shapes : x.log.map ReadEvent.shape = y.log.map ReadEvent.shape
  out : OutMatch E x.out y.out
  error : r.error ≠ .none → x.st.error ≠ .none
  same : ∀ a b, x.out = .ret a → y.out = .ret b → x.st.error = .none →
    (a = b ↔ p ∧ keptOf x.log = keptOf y.log)

namespace InStep

variable {α β : Type} {r : MemoryPackReader} {p : Prop} {B : Build}

/-- One program, given the same. -/
theorem self {m : ReadM α} (h : Nested m) (B : Build) (r : MemoryPackReader) :
    InStep r True Eq (m B r) (m B r) where
  st := rfl
  shapes := rfl
  out := by cases (m B r).out <;> simp [OutMatch]
  error := (h B r).error
  same := fun a b ha hb _ => by
    rw [ha] at hb
    simp [Out.ret.inj hb]

theorem weaken {E F : α → α → Prop} {x y : Res MemoryPackReader MemoryPackError ReadEvent α}
    (h : InStep r p E x y) (hEF : ∀ a b, E a b → F a b) : InStep r p F x y where
  st := h.st
  shapes := h.shapes
  out := by
    have ho := h.out
    revert ho
    rcases x.out with a | e | _ <;> rcases y.out with b | e' | _ <;>
      first | exact hEF a b | exact id
  error := h.error
  same := h.same

theorem pure {E : α → α → Prop} {a b : α} (hE : E a b) (h : a = b ↔ p) :
    InStep r p E (⟨.ret a, r, []⟩ : Res _ _ _ α) ⟨.ret b, r, []⟩ :=
  ⟨rfl, rfl, hE, id, fun a' b' ha hb _ => by
    obtain rfl := Out.ret.inj ha
    obtain rfl := Out.ret.inj hb
    simpa using h⟩

theorem bind {E : α → α → Prop} {F : β → β → Prop} {m m' : ReadM α} {f f' : α → ReadM β}
    (hm : InStep r True E (m B r) (m' B r))
    (hf : ∀ a b s, E a b → InStep s (p ∧ a = b) F (f a B s) (f' b B s)) :
    InStep r p F ((m >>= f) B r) ((m' >>= f') B r) := by
  rw [Prog.bind_apply, Prog.bind_apply]
  rcases hx : m B r with ⟨a | e | _, s, l⟩ <;> rcases hy : m' B r with ⟨b | e' | _, s', l'⟩ <;>
    rw [hx, hy] at hm <;> first | exact hm.out.elim | skip
  · obtain rfl : s = s' := hm.st
    have h := hf a b s hm.out
    rw [Res.bind_ret, Res.bind_ret]
    refine ⟨h.st, ?_, h.out, fun he => h.error (hm.error he), fun c d hc hd he => ?_⟩
    · rw [Res.after_log, Res.after_log, List.map_append, List.map_append, hm.shapes, h.shapes]
    · have hs : s.error = .none := by
        by_contra hne
        exact h.error hne he
      rw [h.same c d hc hd he, hm.same a b rfl rfl hs, Res.after_log, Res.after_log,
        keptOf_append_inj hm.shapes, true_and, and_assoc]
  · exact ⟨hm.st, hm.shapes, hm.out, hm.error, fun _ _ hc => by simp at hc⟩
  · exact ⟨hm.st, hm.shapes, hm.out, hm.error, fun _ _ hc => by simp at hc⟩

/-- A part of the target left in place and then used: what follows may count on the
contents agreeing exactly when the two events do. -/
theorem keep {F : β → β → Prop} {v v' : Val} {m m' : ReadM β}
    (h : InStep r (p ∧ v = v') F (m B r) (m' B r)) :
    InStep r p F ((do Prog.tell (ReadEvent.kept v); m) B r)
      ((do Prog.tell (ReadEvent.kept v'); m') B r) := by
  rw [Prog.bind_apply, Prog.bind_apply, Prog.tell_apply, Prog.tell_apply, Res.bind_ret,
    Res.bind_ret]
  refine ⟨h.st, by simp [h.shapes, ReadEvent.shape], h.out, h.error, fun a b ha hb he => ?_⟩
  rw [h.same a b ha hb he]
  simp [keptOf, and_assoc]

/-- A first part that does not depend on the target. -/
theorem bind_self {F : β → β → Prop} {m : ReadM α} {f f' : α → ReadM β} (hm : Nested m)
    (hf : ∀ a s, InStep s p F (f a B s) (f' a B s)) :
    InStep r p F ((m >>= f) B r) ((m >>= f') B r) :=
  bind (self hm B r) fun a b s hab => by
    subst hab
    simpa using hf a s

end InStep

/-! ## The formatters -/

/-- Two reads of one type into different targets run in step. -/
def TargetFree {α : Type} (m m' : ReadM α) : Prop :=
  ∀ B r, InStep r True (fun _ _ => True) (m B r) (m' B r)

namespace TargetFree

variable {S : Schema} {named : Nat → Val → ReadM Val}

/-- A read that does not depend on its target. -/
theorem refl {α : Type} {m : ReadM α} (h : Nested m) : TargetFree m m :=
  fun B r => (InStep.self h B r).weaken fun _ _ _ => trivial

theorem undeclaredUnion (tag : UInt16) (v v' : Val) :
    TargetFree (Reader.undeclaredUnion tag v) (Reader.undeclaredUnion tag v') := by
  intro B r
  refine .bind_self (Nested.basicRules.tell trivial) fun _ s => ?_
  refine .bind_self Nested.basicRules.get fun r' s => ?_
  exact .bind_self (Nested.basicRules.advance _) fun _ s =>
    .keep (.pure trivial (by simp))

theorem readTy (hn : ∀ i v, Nested (named i v))
    (hnamed : ∀ i v v', TargetFree (named i v) (named i v')) (t : Ty) :
    ∀ v v', TargetFree (Reader.readTy S named t v) (Reader.readTy S named t v') := by
  have hread := Nested.basicRules.readTy (S := S) hn
  induction t with
  | pair a b iha ihb =>
      intro v v' B r
      refine .bind (iha v.fst v'.fst B r) fun x x' s _ => ?_
      refine .bind (ihb v.snd v'.snd B s) fun y y' s' _ => ?_
      exact .pure trivial (by simp)
  | variant tags ts ih =>
      intro v v' B r
      refine .bind_self Nested.basicRules.readRules.readUnionHeader fun o s => ?_
      cases o with
      | none => exact .pure trivial (by simp)
      | some tag =>
          refine .bind_self (Nested.basicRules.readRules.readAlternative
            (fun u _ => hread u (S.init u)) tag 0 tags) fun w s' => ?_
          cases w with
          | none => exact undeclaredUnion tag v v' B s'
          | some w => exact .pure trivial (by simp)
  | object i => exact hnamed i
  | _ => exact fun v v' => refl (hread _ v)

theorem objectBody {v v' : Val} {m m' : ReadM (List Val)} (h : TargetFree m m') :
    TargetFree (Reader.objectBody v m) (Reader.objectBody v' m') := by
  intro B r
  by_cases hdeep : r.depth + 1 > r.options.maxDepth
  · have herr : (r.entered.record .lengthLimit).error ≠ .none := Reader.record_error_ne (by decide)
    rw [Reader.objectBody_deep hdeep, Reader.objectBody_deep hdeep]
    cases hB : B.exceptions with
    | true =>
        rw [Reader.fail_throws hB]
        exact ⟨rfl, rfl, rfl, fun _ => herr, fun _ _ ha => by simp at ha⟩
    | false =>
        rw [Reader.fail_returns hB]
        exact ⟨rfl, rfl, trivial, fun _ => herr, fun _ _ _ _ he => absurd he herr⟩
  · have hm := h B r.entered
    rw [Reader.objectBody_open hdeep, Reader.objectBody_open hdeep]
    rcases hx : m B r.entered with ⟨a | e | _, s, l⟩ <;>
      rcases hy : m' B r.entered with ⟨b | e' | _, s', l'⟩ <;>
        rw [hx, hy] at hm <;> first | exact hm.out.elim | skip
    · obtain rfl : s = s' := hm.st
      have hleft : s.left.error = s.error := by
        unfold MemoryPackReader.left
        split <;> rfl
      refine ⟨rfl, ?_, trivial, fun he => hleft ▸ hm.error he, fun c d hc hd he => ?_⟩
      · simp [hm.shapes]
      · obtain rfl := Out.ret.inj hc
        obtain rfl := Out.ret.inj hd
        have hsame := hm.same a b rfl rfl (hleft ▸ he)
        rw [true_and] at hsame ⊢
        simpa [keptOf, keptOf_append] using hsame
    · exact ⟨hm.st, by simp [hm.shapes], hm.out, hm.error, fun _ _ hc => by simp at hc⟩
    · exact ⟨hm.st, by simp [hm.shapes], hm.out, hm.error, fun _ _ hc => by simp at hc⟩

/-! ## User types -/

theorem readMembers {read : Ty → Val → ReadM Val}
    (hread : ∀ t v v', TargetFree (read t v) (read t v')) (count : Nat) :
    ∀ (ts : List Ty) (index : Nat) (vs vs' : List Val),
      TargetFree (Reader.readMembers S read count index ts vs)
        (Reader.readMembers S read count index ts vs')
  | [], _, _, _, B, r => .pure trivial (by simp)
  | t :: ts, index, vs, vs', B, r => by
      have hrest : ∀ (v v' : Val) s, InStep s (True ∧ v = v') (fun _ _ => True)
          ((do return v :: (← Reader.readMembers S read count (index + 1) ts vs.tail)) B s)
          ((do return v' :: (← Reader.readMembers S read count (index + 1) ts vs'.tail)) B s) :=
        fun v v' s => .bind (readMembers hread count ts (index + 1) vs.tail vs'.tail B s)
          fun _ _ _ _ => .pure trivial (by simp)
      rw [Reader.readMembers, Reader.readMembers]
      by_cases hsent : count > index
      · rw [if_pos hsent, if_pos hsent]
        exact .bind (hread t _ _ B r) fun v v' s _ => hrest v v' s
      · rw [if_neg hsent, if_neg hsent]
        exact .keep (hrest _ _ r)

end TargetFree

/-- One `ReadMember` of a generated `Deserialize` and what follows it, with the two
ways a member is left alone side by side. -/
theorem VersionTolerantReader.readMembers_cons {S : Schema} {read : Ty → Val → ReadM Val}
    {t : Ty} {ts : List Ty} {vs : List Val} {vt : VersionTolerantReader} {old : Val}
    {rest : VersionTolerantReader → Val → ReadM (List Val × VersionTolerantReader)}
    (hold : old = vs.headD (S.init t)) (hrest : rest = fun vt v => do
      let (vs', vt') ← readMembers S read ts vs.tail vt
      return (v :: vs', vt')) :
    readMembers S read (t :: ts) vs vt = (do
      if vt.isNull ∨ vt.index ≥ vt.count then
        Prog.tell (.kept old)
        rest vt old
      else
        let len ← vt.lengthAt
        let B ← Prog.ask
        Reader.seek vt.next
        if ← Reader.failed then
          Prog.tell (.kept old)
          rest { vt with index := vt.index + 1 } old
        else
          let v ← read t old
          Reader.seek ((vt.next + len) % B.sizeMod)
          rest { vt with index := vt.index + 1, next := (vt.next + len) % B.sizeMod } v) := by
  subst hold hrest
  rw [readMembers, readMember]
  split
  · rfl
  · simp only [Prog.bind_assoc]
    congr; funext len; congr; funext B; congr; funext _; congr; funext b
    cases b with
    | true => rfl
    | false =>
        simp only [Bool.false_eq_true, if_false, Prog.bind_assoc]
        rfl

namespace TargetFree

variable {S : Schema}

theorem versionTolerantMembers {read : Ty → Val → ReadM Val}
    (hread : ∀ t v v', TargetFree (read t v) (read t v')) :
    ∀ (ts : List Ty) (vs vs' : List Val) (vt : VersionTolerantReader) (B : Build)
      (r : MemoryPackReader), InStep r True (fun x y => x.2 = y.2)
        (VersionTolerantReader.readMembers S read ts vs vt B r)
        (VersionTolerantReader.readMembers S read ts vs' vt B r)
  | [], _, _, vt, B, r => .pure rfl (by simp)
  | t :: ts, vs, vs', vt, B, r => by
      have hrest : ∀ vt (v v' : Val) s, InStep s (True ∧ v = v') (fun x y => x.2 = y.2)
          ((do
            let (ws, vt') ← VersionTolerantReader.readMembers S read ts vs.tail vt
            return (v :: ws, vt')) B s)
          ((do
            let (ws, vt') ← VersionTolerantReader.readMembers S read ts vs'.tail vt
            return (v' :: ws, vt')) B s) := fun vt v v' s =>
        .bind (versionTolerantMembers hread ts vs.tail vs'.tail vt B s) fun x y s' hxy =>
          .pure hxy (by simp [Prod.ext_iff, hxy])
      rw [VersionTolerantReader.readMembers_cons rfl rfl,
        VersionTolerantReader.readMembers_cons rfl rfl]
      by_cases hend : vt.isNull = true ∨ vt.index ≥ vt.count
      · rw [if_pos hend, if_pos hend]
        exact .keep (hrest vt _ _ r)
      · rw [if_neg hend, if_neg hend]
        refine .bind_self (Nested.basicRules.lengthAt vt) fun len s => ?_
        refine .bind_self (fun _ _ => .flat rfl rfl id (by simp)) fun C s => ?_
        refine .bind_self (Nested.basicRules.seek _) fun _ s => ?_
        refine .bind_self Nested.basicRules.failed fun b s => ?_
        cases b with
        | true => exact .keep (hrest _ _ _ s)
        | false =>
            refine .bind (hread t _ _ B s) fun v v' s _ => ?_
            exact .bind_self (Nested.basicRules.seek _) fun _ s => hrest _ v v' s

/-- Every user type: members past the sender's count are the only part of a
`MEMORYPACK_DEFINE` object left alone, a null VersionTolerant object is left alone
as a whole. -/
theorem readObject (fuel : Nat) : ∀ i v v',
    TargetFree (Reader.readObject S fuel i v) (Reader.readObject S fuel i v') := by
  induction fuel with
  | zero => exact fun _ _ _ => refl Nested.diverge
  | succ fuel ih =>
      intro i v v' B r
      have hread := readTy (S := S) (Nested.basicRules.readObject Nested.objectBody Nested.diverge
        fuel) ih
      cases hkind : (S.decl i).kind with
      | define =>
          rw [Reader.readObject_define hkind, Reader.readObject_define hkind]
          refine .bind_self Nested.basicRules.readObjectHeader fun header s => ?_
          cases hnull : header.isNull with
          | true => exact .pure trivial (by simp)
          | false => exact objectBody (readMembers hread _ _ _ _ _) B s
      | defineEmpty =>
          rw [Reader.readObject_defineEmpty hkind, Reader.readObject_defineEmpty hkind]
          refine .bind_self Nested.basicRules.readObjectHeader fun header s => ?_
          cases hnull : header.isNull with
          | true => exact .pure trivial (by simp)
          | false => exact .keep (.pure trivial (by simp))
      | versionTolerant =>
          rw [Reader.readObject_versionTolerant hkind, Reader.readObject_versionTolerant hkind]
          refine .bind_self Nested.basicRules.construct fun vt s => ?_
          cases hnull : vt.isNull with
          | true => exact .keep (.pure trivial (by simp))
          | false =>
              refine .bind (versionTolerantMembers hread _ _ _ vt B s) fun x y s hxy => ?_
              obtain ⟨vs, vt'⟩ := x
              obtain ⟨vs', vt''⟩ := y
              obtain rfl : vt' = vt'' := hxy
              refine .bind_self (Nested.basicRules.finish vt') fun _ s => ?_
              exact .pure trivial (by simp)

theorem read (t : Ty) (v v' : Val) :
    TargetFree (Reader.read S t v) (Reader.read S t v') := fun _ _ =>
  .bind_self Nested.basicRules.get fun r _ => readTy
    (Nested.basicRules.readObject Nested.objectBody Nested.diverge (r.size + 1))
    (readObject (r.size + 1)) t v v' _ _

end TargetFree

/-! ## In-place against fresh -/

end MemoryPack
