import MemoryPack.Reader.Tracking

/-!
# Where a decode that succeeds ends

`Succeeds` is a return without a failure, and `Lands` such a return with the cursor at a
given place. Both decompose along sequencing, in either build, because no statement
clears an error (`Sticky`). The loops over elements, items and members then land where
reading their parts one after the other lands (`AllLand`).
-/

namespace MemoryPack

open Effect

/-! ## No statement clears an error -/

/-- The input stays, and so does an error. -/
def Sticky {α : Type} (m : ReadM α) : Prop :=
  ∀ (B : Build) (r : MemoryPackReader), (m B r).st.data = r.data ∧
    ((m B r).st.error = .none → r.error = .none)

namespace Sticky

variable {α β : Type}

theorem of_same {m : ReadM α} (h : ∀ B r, (m B r).st.data = r.data ∧ (m B r).st.error = r.error) :
    Sticky m :=
  fun B r => ⟨(h B r).1, fun he => (h B r).2 ▸ he⟩

theorem pure (a : α) : Sticky (Pure.pure a : ReadM α) := of_same fun _ _ => ⟨rfl, rfl⟩

theorem bind {m : ReadM α} {f : α → ReadM β} (hm : Sticky m) (hf : ∀ a, Sticky (f a)) :
    Sticky (m >>= f) := by
  intro B r
  have h := hm B r
  rw [Prog.bind_apply]
  rcases hres : m B r with ⟨a | e | _, r', l⟩ <;> rw [hres] at h
  · have hrest := hf a B r'
    exact ⟨hrest.1.trans h.1, fun he => h.2 (hrest.2 he)⟩
  · exact h
  · exact h

theorem tell (e : ReadEvent) : Sticky (Prog.tell e : ReadM Unit) := of_same fun _ _ => ⟨rfl, rfl⟩

theorem fail {code : MemoryPackError} (hc : code ≠ .none) : Sticky (Reader.fail code) := by
  intro B r
  cases hB : B.exceptions with
  | true =>
      rw [Reader.fail_throws hB]
      exact ⟨rfl, fun he => absurd he (Reader.record_error_ne hc)⟩
  | false =>
      rw [Reader.fail_returns hB]
      exact ⟨rfl, fun he => absurd he (Reader.record_error_ne hc)⟩

theorem nullTest : Sticky Reader.nullCollectionTest := by
  intro B r
  by_cases h4 : 4 ≤ r.remaining
  · by_cases he : r.error = .none
    · rw [Reader.nullCollectionTest_ok he h4]
      exact ⟨rfl, id⟩
    · rw [Reader.nullCollectionTest_failed he h4]
      exact ⟨rfl, id⟩
  · rw [Reader.nullCollectionTest_short h4]
    exact ⟨rfl, id⟩

theorem basicRules : BasicRules (fun {α} => Sticky (α := α)) := by
  have setPos : ∀ pos, Sticky (Reader.setPos pos) := fun pos => of_same fun _ _ => ⟨rfl, rfl⟩
  exact .of_host (.of_setPos ⟨pure, bind⟩ (of_same fun _ _ => ⟨rfl, rfl⟩) (fun _ => tell _) fail
    setPos) setPos (fun _ => tell _) (fun hf _ B r => hf B B r) nullTest

theorem objectBody {v : Val} {members : ReadM (List Val)} (hm : Sticky members) :
    Sticky (Reader.objectBody v members) := by
  have modify : ∀ {f : MemoryPackReader → MemoryPackReader},
      (∀ r, (f r).data = r.data ∧ (f r).error = r.error) →
        Sticky (Prog.modify f : ReadM Unit) := fun hf => of_same fun _ r => hf r
  have enter : Sticky Reader.enterObject := by
    refine basicRules.get.bind fun r => (tell _).bind fun _ =>
      bind (modify fun _ => ⟨rfl, rfl⟩) fun _ => ?_
    exact basicRules.get.bind fun r => Prog.Closed.ite
      (fun _ => (fail (by decide)).bind fun _ => pure _) fun _ => pure _
  have leave : Sticky Reader.leaveObject := modify fun r => by split <;> exact ⟨rfl, rfl⟩
  refine enter.bind fun ok => Prog.Closed.ite (fun _ => pure _) fun _ => ?_
  exact (tell _).bind fun _ => hm.bind fun _ => (tell _).bind fun _ => leave.bind fun _ => pure _

theorem readObject (S : Schema) (fuel i : Nat) (v : Val) : Sticky (Reader.readObject S fuel i v) :=
  basicRules.readObject objectBody (of_same fun _ _ => ⟨rfl, rfl⟩) fuel i v

theorem readTy (S : Schema) (fuel : Nat) (t : Ty) (v : Val) :
    Sticky (Reader.readTy S (Reader.readObject S fuel) t v) :=
  basicRules.readTy (readObject S fuel) t v

end Sticky

/-! ## Success -/

/-- `m` returns without a failure. -/
def Succeeds (B : Build) {α : Type} (m : ReadM α) (r : MemoryPackReader) (a : α)
    (r' : MemoryPackReader) : Prop :=
  Prog.Returns m B r a r' ∧ r'.error = .none

/-- `m` returns without a failure and leaves the cursor at `p`. -/
def Lands (B : Build) {α : Type} (m : ReadM α) (r : MemoryPackReader) (p : Nat) : Prop :=
  ∃ a r', Succeeds B m r a r' ∧ r'.pos = p

section Success

variable {B : Build} {α β : Type} {m : ReadM α} {f : α → ReadM β} {r r' r'' : MemoryPackReader}
  {a a' : α} {b : β} {p : Nat}

theorem Succeeds.unique (h : Succeeds B m r a r') (h' : Succeeds B m r a' r'') :
    a = a' ∧ r' = r'' := h.1.unique h'.1

theorem Succeeds.data (h : Succeeds B m r a r') (hm : Sticky m) : r'.data = r.data := by
  rw [← h.1.2]
  exact (hm B r).1

theorem Succeeds.start (h : Succeeds B m r a r') (hm : Sticky m) : r.error = .none := by
  refine (hm B r).2 ?_
  rw [h.1.2]
  exact h.2

theorem succeeds_bind (hf : ∀ a, Sticky (f a)) : Succeeds B (m >>= f) r b r'' ↔
    ∃ a r', Succeeds B m r a r' ∧ Succeeds B (f a) r' b r'' := by
  constructor
  · rintro ⟨hret, he⟩
    obtain ⟨a, r', hm, hrest⟩ := Prog.returns_bind.mp hret
    have hsecond : Succeeds B (f a) r' b r'' := ⟨hrest, he⟩
    exact ⟨a, r', ⟨hm, hsecond.start (hf a)⟩, hsecond⟩
  · rintro ⟨a, r', hm, hrest⟩
    exact ⟨hm.1.bind hrest.1, hrest.2⟩

theorem lands_bind (hf : ∀ a, Sticky (f a)) : Lands B (m >>= f) r p ↔
    ∃ a r', Succeeds B m r a r' ∧ Lands B (f a) r' p := by
  constructor
  · rintro ⟨b, r'', hrun, hpos⟩
    obtain ⟨a, r', hm, hrest⟩ := (succeeds_bind hf).mp hrun
    exact ⟨a, r', hm, b, r'', hrest, hpos⟩
  · rintro ⟨a, r', hm, b, r'', hrest, hpos⟩
    exact ⟨b, r'', (succeeds_bind hf).mpr ⟨a, r', hm, hrest⟩, hpos⟩

theorem lands_pure : Lands B (Pure.pure a : ReadM α) r p ↔ r.error = .none ∧ r.pos = p := by
  constructor
  · rintro ⟨a', r', ⟨⟨-, hr⟩, he⟩, hpos⟩
    have hr' : r = r' := hr
    subst hr'
    exact ⟨he, hpos⟩
  · rintro ⟨he, hpos⟩
    exact ⟨a, r, ⟨Prog.returns_pure, he⟩, hpos⟩

/-- The first part is known. -/
theorem lands_andThen (hf : ∀ a, Sticky (f a)) (h : Succeeds B m r a r') :
    Lands B (m >>= f) r p ↔ Lands B (f a) r' p := by
  rw [lands_bind hf]
  constructor
  · rintro ⟨a', r'', hm, hrest⟩
    obtain ⟨rfl, rfl⟩ := h.unique hm
    exact hrest
  · intro hrest
    exact ⟨a, r', h, hrest⟩

theorem lands_map (g : α → β) : Lands B (do return g (← m)) r p ↔ Lands B m r p := by
  rw [lands_bind fun _ => Sticky.pure _]
  constructor
  · rintro ⟨a, r', hm, hland⟩
    exact ⟨a, r', hm, (lands_pure.mp hland).2⟩
  · rintro ⟨a, r', hm, hpos⟩
    exact ⟨a, r', hm, lands_pure.mpr ⟨hm.2, hpos⟩⟩

/-- A first part that leaves the reader alone. -/
theorem lands_skip {l : List ReadEvent} (h : m B r = ⟨.ret a, r, l⟩) :
    Lands B (m >>= f) r p ↔ Lands B (f a) r p := by
  unfold Lands Succeeds Prog.Returns
  rw [Prog.bind_apply, h, Res.bind_ret]
  exact Iff.rfl

theorem succeeds_tell {e : ReadEvent} (he : r.error = .none) :
    Succeeds B (Prog.tell e : ReadM Unit) r () r := ⟨⟨rfl, rfl⟩, he⟩

end Success

/-! ## Parts, one after the other -/

/-- The values `ps`, each a type and the target it is read into, are read one after the
other without a failure. -/
inductive ReadsAll (B : Build) (read : Ty → Val → ReadM Val) :
    List (Ty × Val) → MemoryPackReader → MemoryPackReader → Prop where
  | nil {r} : r.error = .none → ReadsAll B read [] r r
  | cons {p ps r r₁ r₂ w} : Succeeds B (read p.1 p.2) r w r₁ → ReadsAll B read ps r₁ r₂ →
      ReadsAll B read (p :: ps) r r₂

/-- They are, and leave the cursor at `q`. -/
def AllLand (B : Build) (read : Ty → Val → ReadM Val) (ps : List (Ty × Val))
    (r : MemoryPackReader) (q : Nat) : Prop :=
  ∃ r', ReadsAll B read ps r r' ∧ r'.pos = q

section Parts

variable {B : Build} {read : Ty → Val → ReadM Val} {p : Ty × Val} {ps before after : List (Ty × Val)}
  {r r₁ r₂ : MemoryPackReader} {q : Nat}

theorem allLand_nil : AllLand B read [] r q ↔ r.error = .none ∧ r.pos = q := by
  constructor
  · rintro ⟨r', ⟨he⟩, hpos⟩
    exact ⟨he, hpos⟩
  · rintro ⟨he, hpos⟩
    exact ⟨r, .nil he, hpos⟩

theorem allLand_cons : AllLand B read (p :: ps) r q ↔
    ∃ w r₁, Succeeds B (read p.1 p.2) r w r₁ ∧ AllLand B read ps r₁ q := by
  constructor
  · rintro ⟨r', hall, hpos⟩
    cases hall with
    | cons hp hps => exact ⟨_, _, hp, r', hps, hpos⟩
  · rintro ⟨w, r₁, hp, r', hps, hpos⟩
    exact ⟨r', .cons hp hps, hpos⟩

theorem allLand_one : AllLand B read [p] r q ↔ Lands B (read p.1 p.2) r q := by
  rw [allLand_cons]
  constructor
  · rintro ⟨w, r₁, hp, hland⟩
    exact ⟨w, r₁, hp, (allLand_nil.mp hland).2⟩
  · rintro ⟨w, r₁, hp, hpos⟩
    exact ⟨w, r₁, hp, allLand_nil.mpr ⟨hp.2, hpos⟩⟩

/-- The parts before a given one are known to have been read. -/
theorem allLand_append (h : ReadsAll B read before r r₁) :
    AllLand B read (before ++ after) r q ↔ AllLand B read after r₁ q := by
  induction h with
  | nil => exact Iff.rfl
  | cons hp _ ih =>
      rw [List.cons_append, allLand_cons, ← ih]
      constructor
      · rintro ⟨w, r₁, hp', hland⟩
        obtain ⟨-, rfl⟩ := hp.unique hp'
        exact hland
      · intro hland
        exact ⟨_, _, hp, hland⟩

theorem ReadsAll.data (hread : ∀ t v, Sticky (read t v)) (h : ReadsAll B read ps r r₁) :
    r₁.data = r.data := by
  induction h with
  | nil => rfl
  | cons hp _ ih => exact ih.trans (hp.data (hread _ _))

end Parts

/-! ## Loops -/

section Loops

variable {B : Build} {S : Schema} {fuel : Nat} {r r₁ : MemoryPackReader} {q : Nat} {α : Type}

theorem lands_congr {m m' : ReadM α} (h : m B r = m' B r) : Lands B m r q ↔ Lands B m' r q := by
  unfold Lands Succeeds Prog.Returns
  rw [h]

/-- The collection loop, by induction on the elements to go. -/
theorem forWhile_lands {body : α → ReadM α} {store : α → Val → α} {t : Ty} {v : Val}
    (hsticky : ∀ a, Sticky (body a))
    (hbody : ∀ {a r a' r'}, Succeeds B (body a) r a' r' ↔ ∃ w, a' = store a w ∧
      Succeeds B (Reader.readTy S (Reader.readObject S fuel) t v) r w r') :
    ∀ (n : Nat) (a : α) {r : MemoryPackReader}, r.error = .none →
    (Lands B (Prog.forWhile MemoryPackReader.failed body n a) r q ↔
      AllLand B (Reader.readTy S (Reader.readObject S fuel)) (List.replicate n (t, v)) r q)
  | 0, a, r, he => by
      rw [List.replicate_zero, allLand_nil]
      exact lands_pure
  | n + 1, a, r, he => by
      have hnext : Prog.forWhile MemoryPackReader.failed body (n + 1) a B r =
          (body a >>= fun a' => Prog.forWhile MemoryPackReader.failed body n a') B r :=
        Prog.forWhile_succ (by simp [MemoryPackReader.failed, he])
      rw [lands_congr hnext, List.replicate_succ, allLand_cons,
        lands_bind fun a' => Sticky.basicRules.forWhile hsticky n a']
      constructor
      · rintro ⟨a', r₁, hone, hrest⟩
        obtain ⟨w, -, hw⟩ := hbody.mp hone
        exact ⟨w, r₁, hw, (forWhile_lands hsticky hbody n a' hw.2).mp hrest⟩
      · rintro ⟨w, r₁, hw, hrest⟩
        exact ⟨_, r₁, hbody.mpr ⟨w, rfl, hw⟩, (forWhile_lands hsticky hbody n _ hw.2).mpr hrest⟩

/-- A collection, once its length is read. -/
theorem readElements_lands {min : Nat} {reserve counted : Bool} {store : α → Val → α} {a : α}
    {t : Ty} {v : Val} {len : Int} (hlen : Succeeds B (Reader.readCollectionLength min) r len r₁)
    (hpos : 0 < len) :
    Lands B (Reader.readElements min reserve counted
      (Reader.readTy S (Reader.readObject S fuel) t v) store a) r q ↔
    AllLand B (Reader.readTy S (Reader.readObject S fuel)) (List.replicate len.toNat (t, v)) r₁ q := by
  have htail : ∀ (a : α) (w : Val), Sticky (do
      if counted then Prog.tell (.elements 1)
      return store a w : ReadM α) := fun a w =>
    Prog.Closed.ite (fun _ => (Sticky.tell _).bind fun _ => .pure _) fun _ => .pure _
  have hbody : ∀ {a r a' r'}, Succeeds B (do
      let w ← Reader.readTy S (Reader.readObject S fuel) t v
      if counted then Prog.tell (.elements 1)
      return store a w : ReadM α) r a' r' ↔ ∃ w, a' = store a w ∧
        Succeeds B (Reader.readTy S (Reader.readObject S fuel) t v) r w r' := by
    intro a r a' r'
    have hend : ∀ {w r₂}, r₂.error = .none → (Succeeds B (do
        if counted then Prog.tell (.elements 1)
        return store a w : ReadM α) r₂ a' r' ↔ a' = store a w ∧ r' = r₂) := by
      intro w r₂ he
      constructor
      · rintro ⟨hret, -⟩
        cases counted with
        | true => exact ⟨(Out.ret.inj hret.1).symm, hret.2.symm⟩
        | false => exact ⟨(Out.ret.inj hret.1).symm, hret.2.symm⟩
      · rintro ⟨rfl, rfl⟩
        refine ⟨?_, he⟩
        cases counted with
        | true => exact ⟨rfl, rfl⟩
        | false => exact ⟨rfl, rfl⟩
    rw [succeeds_bind (htail a)]
    constructor
    · rintro ⟨w, r₂, hw, hrest⟩
      obtain ⟨ha, rfl⟩ := (hend hw.2).mp hrest
      exact ⟨w, ha, hw⟩
    · rintro ⟨w, ha, hw⟩
      exact ⟨w, r', hw, (hend hw.2).mpr ⟨ha, rfl⟩⟩
  have hsticky := fun a => (Sticky.readTy S fuel t v).bind (htail a)
  have hloop : ∀ n a, Sticky (Prog.forWhile MemoryPackReader.failed _ n a) := fun n a =>
    Sticky.basicRules.forWhile hsticky n a
  have hreserve : ∀ n (s : MemoryPackReader), Sticky (do
      Prog.tell (.alloc n min s.remaining)
      Prog.forWhile MemoryPackReader.failed _ n a : ReadM α) := fun n _ =>
    (Sticky.tell _).bind fun _ => hloop n a
  have hall : ∀ n : Int, Sticky (do
      if n ≤ 0 then return a
      if reserve then Prog.tell (.alloc n.toNat min (← Prog.get).remaining)
      Prog.forWhile MemoryPackReader.failed _ n.toNat a : ReadM α) := fun n =>
    Prog.Closed.ite (fun _ => .pure _) fun _ => Prog.Closed.ite
      (fun _ => Sticky.basicRules.get.bind fun s => hreserve _ s) fun _ => hloop _ a
  rw [Reader.readElements, lands_andThen hall hlen, if_neg (Int.not_le.mpr hpos),
    ← forWhile_lands hsticky hbody len.toNat a hlen.2]
  cases reserve with
  | false => exact Iff.rfl
  | true =>
      have hget : Succeeds B (Prog.get : ReadM MemoryPackReader) r₁ r₁ r₁ := ⟨⟨rfl, rfl⟩, hlen.2⟩
      rw [if_pos rfl, lands_andThen (hreserve _) hget]
      exact lands_andThen (fun _ => hloop _ a) (succeeds_tell hlen.2)

/-! ## Tuples and objects -/

theorem sticky_readItems (count : Nat) (ts : List Ty) (i : Nat) :
    Sticky (Reader.readItems S (Reader.readObject S fuel) count i ts) :=
  Sticky.basicRules.readRules.readItems count (fun u _ => Sticky.readTy S fuel u (S.init u)) i

/-- Items past the sender's count are not read. -/
theorem readItems_lands (count : Nat) : ∀ (ts : List Ty) (i : Nat) {r : MemoryPackReader},
    Lands B (Reader.readItems S (Reader.readObject S fuel) count i ts) r q ↔
      AllLand B (Reader.readTy S (Reader.readObject S fuel))
        ((ts.take (count - i)).map fun t => (t, S.init t)) r q
  | [], i, r => by
      rw [List.take_nil, List.map_nil, allLand_nil, Reader.readItems]
      exact lands_pure
  | t :: ts, i, r => by
      have hrest : ∀ v, Sticky (do
          let vs ← Reader.readItems S (Reader.readObject S fuel) count (i + 1) ts
          return v :: vs : ReadM (List Val)) := fun v =>
        (sticky_readItems count ts (i + 1)).bind fun vs => .pure _
      rw [Reader.readItems]
      by_cases hi : i < count
      · rw [if_pos hi, lands_bind hrest, show count - i = (count - (i + 1)) + 1 by omega,
          List.take_succ_cons, List.map_cons, allLand_cons]
        refine exists_congr fun w => exists_congr fun r₁ => and_congr_right fun _ => ?_
        rw [lands_map, readItems_lands count ts (i + 1)]
      · rw [if_neg hi, show count - i = 0 by omega, List.take_zero, List.map_nil]
        have hzero := readItems_lands count ts (i + 1) (r := r)
        rw [show count - (i + 1) = 0 by omega, List.take_zero, List.map_nil] at hzero
        rw [← hzero]
        exact lands_map _

/-- The members of a `MEMORYPACK_DEFINE` type, each with what the target holds. -/
def memberTargets (S : Schema) : List Ty → List Val → List (Ty × Val)
  | [], _ => []
  | t :: ts, vs => (t, vs.headD (S.init t)) :: memberTargets S ts vs.tail

theorem readMembers_lands (count : Nat) : ∀ (ts : List Ty) (vs : List Val) (index : Nat)
    {r : MemoryPackReader},
    Lands B (Reader.readMembers S (Reader.readTy S (Reader.readObject S fuel)) count index ts vs)
      r q ↔
      AllLand B (Reader.readTy S (Reader.readObject S fuel))
        ((memberTargets S ts vs).take (count - index)) r q
  | [], vs, index, r => by
      rw [memberTargets, List.take_nil, allLand_nil]
      exact lands_pure
  | t :: ts, vs, index, r => by
      have hrest := fun v => (Sticky.basicRules.readMembers (S := S) count ts (index + 1) vs.tail
        fun u _ w => Sticky.readTy S fuel u w).bind fun vs' => Sticky.pure (v :: vs')
      rw [Reader.readMembers, memberTargets]
      by_cases hi : count > index
      · rw [if_pos hi, lands_bind hrest, show count - index = (count - (index + 1)) + 1 by omega,
          List.take_succ_cons, allLand_cons]
        refine exists_congr fun w => exists_congr fun r₁ => and_congr_right fun _ => ?_
        rw [lands_map, readMembers_lands count ts vs.tail (index + 1)]
      · rw [if_neg hi, show count - index = 0 by omega, List.take_zero]
        have hzero := readMembers_lands count ts vs.tail (index + 1) (r := r)
        rw [show count - (index + 1) = 0 by omega, List.take_zero] at hzero
        rw [← hzero, lands_skip (l := [.kept (vs.headD (S.init t))]) rfl]
        exact lands_map _

theorem MemoryPackReader.left_pos (r : MemoryPackReader) : r.left.pos = r.pos := by
  unfold MemoryPackReader.left
  split <;> rfl

theorem MemoryPackReader.left_error (r : MemoryPackReader) : r.left.error = r.error := by
  unfold MemoryPackReader.left
  split <;> rfl

/-- An object that is not too deep lands where its members do. -/
theorem objectBody_lands {v : Val} {members : ReadM (List Val)}
    (h : ¬ r.depth + 1 > r.options.maxDepth) :
    Lands B (Reader.objectBody v members) r q ↔ Lands B members r.entered q := by
  have hrun : Reader.objectBody v members B r =
      ((members B r.entered).bind fun vs s => ⟨.ret (.seq vs), s.left, [.leaveBody]⟩).after
        [.entering r.depth, .enterBody] := Reader.objectBody_open h
  constructor
  · rintro ⟨w, r', ⟨hret, he⟩, hpos⟩
    rw [Prog.Returns, hrun] at hret
    rcases hm : members B r.entered with ⟨vs | c | _, s, l⟩ <;> rw [hm] at hret
    · obtain ⟨-, rfl⟩ := hret
      have hpos' : s.left.pos = q := hpos
      have he' : s.left.error = .none := he
      rw [MemoryPackReader.left_pos] at hpos'
      rw [MemoryPackReader.left_error] at he'
      exact ⟨vs, s, ⟨Prog.returns_iff.mpr ⟨l, hm⟩, he'⟩, hpos'⟩
    · exact nomatch hret.1
    · exact nomatch hret.1
  · rintro ⟨vs, s, ⟨hret, he⟩, hpos⟩
    obtain ⟨l, hm⟩ := Prog.returns_iff.mp hret
    refine ⟨.seq vs, s.left, ⟨?_, ?_⟩, ?_⟩
    · rw [Prog.Returns, hrun, hm]
      exact ⟨rfl, rfl⟩
    · rw [MemoryPackReader.left_error, he]
    · rw [MemoryPackReader.left_pos, hpos]

/-! ## Nulls and alternatives -/

theorem nullObject_lands {payload : ReadM Val} {l : List ReadEvent}
    (h : Reader.peekIsNull B r = ⟨.ret false, r, l⟩) :
    Lands B (Reader.nullObjectDeserialize payload) r q ↔ Lands B payload r q := by
  rw [Reader.nullObjectDeserialize, lands_skip h]
  exact lands_map _

theorem nullCollection_lands {payload : ReadM Val} {l : List ReadEvent}
    (h : Reader.nullCollectionTest B r = ⟨.ret false, r, l⟩) :
    Lands B (Reader.nullCollectionDeserialize payload) r q ↔ Lands B payload r q := by
  rw [Reader.nullCollectionDeserialize_eq, lands_skip h]
  exact lands_map _

/-- The alternative `ReadUnionAlternative` reads for a tag: the first that declares it. -/
def alternativeOf (tag : UInt16) : List UInt16 → List Ty → Option Ty
  | g :: gs, t :: ts => if g = tag then some t else alternativeOf tag gs ts
  | _, _ => none

theorem readAlternative_eq (S : Schema) (named : Nat → Val → ReadM Val) (tag : UInt16) :
    ∀ (gs : List UInt16) (ts : List Ty) (i : Nat),
      Reader.readAlternative S named tag i gs ts = match alternativeOf tag gs ts with
        | none => pure none
        | some t => do return some (.alt (i + gs.idxOf tag) (← Reader.readTy S named t (S.init t)))
  | [], ts, i => by
      rw [Reader.readAlternative]
      · rfl
      · simp
  | g :: gs, [], i => by
      rw [Reader.readAlternative]
      · rfl
      · simp
  | g :: gs, t :: ts, i => by
      rw [Reader.readAlternative, alternativeOf]
      by_cases hg : g = tag
      · rw [if_neg (not_not.mpr hg), if_pos hg, hg, List.idxOf_cons_self]
        rfl
      · rw [if_pos hg, if_neg hg, readAlternative_eq S named tag gs ts (i + 1),
          List.idxOf_cons_ne _ (fun h => hg h), Nat.succ_eq_add_one, Nat.add_comm (gs.idxOf tag) 1,
          Nat.add_assoc]

end Loops

/-! ## At the end of the input -/

section AtEnd

variable {B : Build} {S : Schema} {x : List UInt8}

/-- Behind the last byte no header can be read, so no object follows. -/
theorem Follows.readObject_end (hB : B.exceptions = true) (hx : x.length < B.sizeMod) :
    ∀ (fuel i : Nat) (v : Val),
      Follows B (Near x.length x x) 1 (Reader.readObject S fuel i v) := by
  have hextends : Extends x.length x x := ⟨Nat.le_refl _, fun _ _ _ => rfl⟩
  have header : ∀ {α : Type} (f : ObjectHeader → ReadM α),
      Follows B (Near x.length x x) 1 (Reader.readObjectHeader >>= f) := by
    intro α f r r' a r₂ l hr he hres
    obtain ⟨h, r₁, l₁, l₂, hheader, -, -⟩ := Prog.bind_eq_ret hres
    obtain ⟨-, hpos, r₁', -, -, hr₁⟩ :=
      Follows.readObjectHeader hB (Near.moves hx hextends) hr he hheader
    have hlo : x.length ≤ r.pos := by
      cases hr with
      | aligned hr => exact hr.lo_le
      | ended _ _ _ hpos => exact hpos.ge
    have hend := hr₁.le_size
    rw [MemoryPackReader.size, hr₁.data] at hend
    omega
  intro fuel i v
  cases fuel with
  | zero => exact fun _ _ _ _ _ _ _ hres => by simp [Reader.readObject] at hres
  | succ fuel =>
      cases hk : (S.decl i).kind with
      | define =>
          rw [Reader.readObject_define hk]
          exact header _
      | defineEmpty =>
          rw [Reader.readObject_defineEmpty hk]
          exact header _
      | versionTolerant =>
          rw [Reader.readObject_versionTolerant hk, VersionTolerantReader.deserialize,
            VersionTolerantReader.construct, Prog.bind_assoc]
          exact header _

theorem Unfailed.readTy (S : Schema) (fuel : Nat) (t : Ty) (v : Val) :
    Unfailed (Reader.readTy S (Reader.readObject S fuel) t v) :=
  basicRules.readTy (basicRules.readObject objectBody (of_eq .diverge fun _ _ => rfl) fuel) t v

/-- Every `Read<T>` fails behind the last byte. -/
theorem not_lands_at_end {fuel : Nat} {t : Ty} {v : Val} {r : MemoryPackReader} {q : Nat}
    (hsize : r.size < B.sizeMod) (hend : r.pos = r.size) :
    ¬ Lands B (Reader.readTy S (Reader.readObject S fuel) t v) r q := by
  rintro ⟨w, r', hrun, -⟩
  have he := hrun.start (Sticky.readTy S fuel t v)
  obtain ⟨l, hres⟩ := Prog.returns_iff.mp hrun.1
  -- the run is also one of the build with exceptions
  have hthrowing : Reader.readTy S (Reader.readObject S fuel) t v B.throwing r = ⟨.ret w, r', l⟩ := by
    cases hB : B.exceptions with
    | true =>
        rw [show B.throwing = B by rw [Build.throwing, ← hB]]
        exact hres
    | false =>
        rw [show B = B.quiet by rw [Build.quiet, ← hB]] at hres
        exact (Unfailed.readTy S fuel t v).throwing he hres hrun.2
  have hextends : Extends r.data.length r.data r.data := ⟨Nat.le_refl _, fun _ _ _ => rfl⟩
  have hmod : r.data.length < B.throwing.sizeMod := hsize
  have hnear : Near r.data.length r.data r.data r r :=
    .aligned ⟨rfl, rfl, Nat.le_of_eq hend.symm, Nat.le_of_eq hend⟩
  have hfollows := (Follows.readRules (B := B.throwing) rfl hmod hextends (Nat.le_refl _)).readTy (S := S)
    (Follows.readObject_end (S := S) rfl hmod fuel) t (fun _ _ => trivial) v
  obtain ⟨-, hpos, r₁', -, -, hnear'⟩ := hfollows hnear he hthrowing
  have hle := hnear'.le_size
  rw [MemoryPackReader.size, hnear'.data] at hle
  have hmin := Reader.wireMin_pos t
  have hsize' : r.pos = r.data.length := hend
  omega

end AtEnd

end MemoryPack
