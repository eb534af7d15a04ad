import MemoryPack.Reader.Bounds

/-!
# Room for nested objects does not matter

`read` allows one nested user object more than the input has bytes. Any other
bound that a decode does not exhaust gives the same decode: `Below m m'` says that
`m'` does what `m` does wherever `m` ends, and every formatter is monotone for it.
-/

namespace MemoryPack

open Effect

def Below {α : Type} (m m' : ReadM α) : Prop := ∀ B r, (m B r).out ≠ .diverge → m' B r = m B r

namespace Below

variable {α β : Type}

theorem refl (m : ReadM α) : Below m m := fun _ _ _ => rfl

theorem bind {m m' : ReadM α} {f f' : α → ReadM β} (hm : Below m m')
    (hf : ∀ a, Below (f a) (f' a)) : Below (m >>= f) (m' >>= f') := by
  intro B r hd
  rw [Prog.bind_apply] at hd
  rw [Prog.bind_apply, Prog.bind_apply]
  rcases h : m B r with ⟨a | e | _, r', l⟩ <;> rw [h] at hd
  · rw [hm B r (by rw [h]; simp), h, Res.bind_ret, Res.bind_ret, hf a B r' hd]
  · rw [hm B r (by rw [h]; simp), h, Res.bind_throw, Res.bind_throw]
  · simp at hd

/-- The continuation is the same program. -/
theorem andThen {m m' : ReadM α} (hm : Below m m') (f : α → ReadM β) :
    Below (m >>= f) (m' >>= f) := hm.bind fun a => refl (f a)

theorem ite {c : Prop} [Decidable c] {m m' n n' : ReadM α} (hm : Below m m') (hn : Below n n') :
    Below (if c then m else n) (if c then m' else n') := by
  split
  · exact hm
  · exact hn

theorem forWhile (stop : MemoryPackReader → Bool) {body body' : α → ReadM α}
    (hb : ∀ a, Below (body a) (body' a)) :
    ∀ n a, Below (Prog.forWhile stop body n a) (Prog.forWhile stop body' n a)
  | 0, _ => refl _
  | n + 1, a => (refl _).bind fun _ => ite (refl _) ((hb a).bind fun a' => forWhile stop hb n a')

variable {element element' : ReadM β}

theorem readElements {min : Nat} {reserve counted : Bool} {store : α → β → α} {a : α}
    (he : Below element element') : Below
      (Reader.readElements min reserve counted element store a)
      (Reader.readElements min reserve counted element' store a) := by
  have hloop := fun count => forWhile MemoryPackReader.failed
    (fun a : α => he.andThen fun v => (do
      if counted then Prog.tell (.elements 1)
      return store a v : ReadM α)) count a
  exact (refl _).bind fun len => ite (refl _)
    (ite ((refl _).bind fun _ => (refl _).bind fun _ => hloop _) (hloop _))

variable {payload payload' : ReadM Val}

theorem readCollection {t : Ty} (he : Below payload payload') :
    Below (Reader.readCollection t payload) (Reader.readCollection t payload') := by
  unfold Reader.readCollection
  split
  · exact refl _
  · exact ite (refl _) (readElements he)
  · exact readElements he

theorem arrayDeserialize {S : Schema} {n : Nat} {t : Ty} (he : Below payload payload') :
    Below (Reader.arrayDeserialize S n t payload) (Reader.arrayDeserialize S n t payload') := by
  unfold Reader.arrayDeserialize
  split
  · exact ite (refl _) ((readElements he).andThen _)
  · exact (readElements he).andThen _

theorem nullObject (he : Below payload payload') : Below
    (Reader.nullObjectDeserialize payload) (Reader.nullObjectDeserialize payload') :=
  (refl _).bind fun _ => ite (refl _) (he.andThen _)

theorem nullCollection (he : Below payload payload') : Below
    (Reader.nullCollectionDeserialize payload) (Reader.nullCollectionDeserialize payload') := by
  rw [Reader.nullCollectionDeserialize_eq, Reader.nullCollectionDeserialize_eq]
  exact (refl _).bind fun _ => ite (refl _) (he.andThen _)

theorem optionalDeserialize {t : Ty} (he : Below payload payload') : Below
    (Reader.optionalDeserialize t payload) (Reader.optionalDeserialize t payload') := by
  unfold Reader.optionalDeserialize
  split
  · exact refl _
  · exact nullCollection he
  · exact refl _
  · exact nullCollection he
  · exact nullObject he

theorem readTy {S : Schema} {named named' : Nat → Val → ReadM Val}
    (hnamed : ∀ i v, Below (named i v) (named' i v)) (t : Ty) :
    ∀ v, Below (Reader.readTy S named t v) (Reader.readTy S named' t v) := by
  induction t with
  | vector t ih =>
      intro v
      rw [Reader.readTy, Reader.readTy]
      exact (readCollection (ih _)).andThen _
  | sequence k t ih =>
      intro v
      rw [Reader.readTy, Reader.readTy]
      exact (readElements (ih _)).andThen _
  | array n t ih =>
      intro v
      rw [Reader.readTy, Reader.readTy]
      exact (arrayDeserialize (ih _)).andThen _
  | set o t ih =>
      intro v
      rw [Reader.readTy, Reader.readTy]
      exact (readElements (ih _)).andThen _
  | map o k t ihk iht =>
      intro v
      rw [Reader.readTy, Reader.readTy]
      exact (readElements ((ihk _).bind fun _ => (iht _).andThen _)).andThen _
  | pair a b iha ihb =>
      intro v
      rw [Reader.readTy, Reader.readTy]
      exact (iha _).bind fun _ => (ihb _).andThen _
  | tuple ts ih =>
      intro v
      have items : ∀ us : List Ty, us ⊆ ts → ∀ count i, Below
          (Reader.readItems S named count i us) (Reader.readItems S named' count i us) := by
        intro us
        induction us with
        | nil =>
            intro _ count i
            rw [Reader.readItems, Reader.readItems]
            exact refl _
        | cons u us ihus =>
            intro hsub count i
            obtain ⟨hu, hus⟩ := List.cons_subset.mp hsub
            have hrest := fun v => (ihus hus count (i + 1)).andThen fun vs => pure (v :: vs)
            rw [Reader.readItems, Reader.readItems]
            exact ite ((ih u hu _).bind hrest) ((refl _).bind hrest)
      rw [Reader.readTy, Reader.readTy]
      exact (refl _).bind fun header =>
        ite (refl _) ((items ts (List.Subset.refl ts) _ 0).andThen _)
  | optional t ih =>
      intro v
      rw [Reader.readTy, Reader.readTy]
      exact optionalDeserialize (ih _)
  | pointer p t ih =>
      intro v
      rw [Reader.readTy, Reader.readTy]
      exact nullObject (ih _)
  | variant tags ts ih =>
      intro v
      have alternative : ∀ us : List Ty, us ⊆ ts → ∀ tag i gs, Below
          (Reader.readAlternative S named tag i gs us)
          (Reader.readAlternative S named' tag i gs us) := by
        intro us
        induction us with
        | nil =>
            intro _ tag i gs
            cases gs <;> (rw [Reader.readAlternative, Reader.readAlternative] <;>
              first | exact refl _ | simp)
        | cons u us ihus =>
            intro hsub tag i gs
            obtain ⟨hu, hus⟩ := List.cons_subset.mp hsub
            cases gs with
            | nil => rw [Reader.readAlternative, Reader.readAlternative] <;>
                first | exact refl _ | simp
            | cons g gs =>
                rw [Reader.readAlternative, Reader.readAlternative]
                exact ite (ihus hus tag (i + 1) gs) ((ih u hu _).andThen _)
      rw [Reader.readTy, Reader.readTy]
      refine (refl _).bind fun o => ?_
      cases o with
      | none => exact refl _
      | some tag => exact (alternative ts (List.Subset.refl ts) tag 0 tags).andThen _
  | object i =>
      intro v
      rw [Reader.readTy, Reader.readTy]
      exact hnamed i v
  | _ =>
      intro v
      rw [Reader.readTy, Reader.readTy]
      exact refl _

theorem objectBody {v : Val} {members members' : ReadM (List Val)} (hm : Below members members') :
    Below (Reader.objectBody v members) (Reader.objectBody v members') :=
  (refl _).bind fun _ => ite (refl _) ((refl _).bind fun _ => hm.andThen _)

theorem readMembers {S : Schema} {read read' : Ty → Val → ReadM Val}
    (h : ∀ t v, Below (read t v) (read' t v)) (count : Nat) : ∀ (ts : List Ty) (index : Nat)
      (vs : List Val), Below (Reader.readMembers S read count index ts vs)
        (Reader.readMembers S read' count index ts vs)
  | [], _, _ => refl _
  | t :: ts, index, vs => by
      have hrest := fun v => (readMembers (S := S) h count ts (index + 1)
        vs.tail).andThen fun vs' => pure (v :: vs')
      exact ite ((h t _).bind hrest) ((refl _).bind fun _ => (refl _).bind hrest)

theorem readMember {read read' : Val → ReadM Val} (h : ∀ v, Below (read v) (read' v))
    (vt : VersionTolerantReader) (out : Val) : Below (VersionTolerantReader.readMember read vt out)
      (VersionTolerantReader.readMember read' vt out) :=
  ite (refl _) ((refl _).bind fun _ => (refl _).bind fun _ => (refl _).bind fun _ =>
    (refl _).bind fun _ => ite (refl _) ((h out).andThen _))

theorem versionTolerantMembers {S : Schema} {read read' : Ty → Val → ReadM Val}
    (h : ∀ t v, Below (read t v) (read' t v)) : ∀ (ts : List Ty) (vs : List Val)
      (vt : VersionTolerantReader), Below (VersionTolerantReader.readMembers S read ts vs vt)
        (VersionTolerantReader.readMembers S read' ts vs vt)
  | [], _, _ => refl _
  | t :: ts, vs, vt => by
      refine (readMember (h t) vt _).bind fun x => ?_
      have hrest := (versionTolerantMembers (S := S) h ts vs.tail x.2.2).andThen fun y =>
        (Pure.pure (x.2.1 :: y.1, y.2) : ReadM (List Val × VersionTolerantReader))
      exact ite ((refl _).bind fun _ => hrest) hrest

theorem readObject_succ {S : Schema} : ∀ (fuel i : Nat) (v : Val),
    Below (Reader.readObject S fuel i v) (Reader.readObject S (fuel + 1) i v)
  | 0, i, v => fun B r h => absurd rfl h
  | fuel + 1, i, v => by
      have hread := readTy (S := S) (readObject_succ (S := S) fuel)
      cases hk : (S.decl i).kind with
      | define =>
          rw [Reader.readObject_define hk, Reader.readObject_define hk]
          exact (refl _).bind fun header => ite (refl _) (objectBody (readMembers hread _ _ _ _))
      | defineEmpty =>
          rw [Reader.readObject_defineEmpty hk, Reader.readObject_defineEmpty hk]
          exact refl _
      | versionTolerant =>
          rw [Reader.readObject_versionTolerant hk, Reader.readObject_versionTolerant hk]
          exact (refl _).bind fun vt => ite (refl _)
            ((versionTolerantMembers hread _ _ vt).andThen _)

theorem readObject {S : Schema} {fuel fuel' : Nat} (h : fuel ≤ fuel') (i : Nat) (v : Val) :
    Below (Reader.readObject S fuel i v) (Reader.readObject S fuel' i v) := by
  induction h with
  | refl => exact refl _
  | step _ ih =>
      intro B r hd
      have heq := ih B r hd
      exact (readObject_succ _ i v B r (heq ▸ hd)).trans heq

end Below

/-- Any bound above the number of bytes left decodes as `read` does. -/
theorem read_eq_of_lt {S : Schema} (hS : S.NoVersionTolerant) {B : Build} {t : Ty} {v : Val}
    {r : MemoryPackReader} {fuel : Nat} (hpos : r.pos ≤ r.size) (hfuel : r.remaining < fuel) :
    Reader.readTy S (Reader.readObject S fuel) t v B r = Reader.read S t v B r := by
  have total : ∀ k, r.remaining < k →
      (Reader.readTy S (Reader.readObject S k) t v B r).out ≠ .diverge := fun k hk =>
    (Bounded.readRules.readTy (Bounded.readObject (Q := False) hS False.elim k) t
      (fun _ _ _ _ _ => False.elim) v r ⟨hpos, hk⟩).total
  have hsize : r.remaining < r.size + 1 := Nat.lt_succ_of_le (Nat.sub_le _ _)
  rcases Nat.le_total fuel (r.size + 1) with h | h
  · exact (Below.readTy (Below.readObject h) t v B r (total fuel hfuel)).symm
  · exact Below.readTy (Below.readObject h) t v B r (total _ hsize)

end MemoryPack
