import MemoryPack.Reader.Nesting

/-!
# The two error modes decode alike

With exceptions, the first failing check ends the run. Without them the reader
remembers the first error and every formatter goes on over a failed reader. `Sync`
relates the two runs of one program: as long as nothing fails they are the same
run, event by event; once a check fails, the run without exceptions ends with the
error the other one threw. It holds of every formatter, VersionTolerant types
included, because no primitive forgets or replaces a recorded error.
-/

namespace MemoryPack

open Effect

structure Sync {α : Type} (m : ReadM α) : Prop where
  /-- nothing failed: one run -/
  ret : ∀ {B : Build} {r a r' l}, r.error = .none → m B.throwing r = ⟨.ret a, r', l⟩ →
    r'.error = .none ∧ m B.quiet r = ⟨.ret a, r', l⟩
  /-- a check failed: the same error is recorded -/
  throw : ∀ {B : Build} {r c r' l}, r.error = .none → m B.throwing r = ⟨.throw c, r', l⟩ →
    c ≠ .none ∧ r'.error = c ∧ (m B.quiet r).st.error = c
  /-- a recorded error stays -/
  sticky : ∀ {B : Build} {r}, r.error ≠ .none → (m B.quiet r).st.error = r.error
  /-- nothing is thrown in the quiet build -/
  quiet : ∀ {B : Build} {r c}, (m B.quiet r).out ≠ .throw c

namespace Sync

variable {α β : Type}

/-- A program that neither looks at the error mode nor touches the error. -/
theorem of_eq {m : ReadM α} (h : ∀ B r, ∃ a r' l, r'.error = r.error ∧
    m (Build.throwing B) r = ⟨.ret a, r', l⟩ ∧ m (Build.quiet B) r = ⟨.ret a, r', l⟩) : Sync m where
  ret := fun {B r a r' l} he hres => by
    obtain ⟨a', s, l', hs, ht, hq⟩ := h B r
    rw [ht] at hres
    obtain ⟨-, rfl, -⟩ := (Res.mk.injEq ..).mp hres
    exact ⟨hs.trans he, hq.trans hres⟩
  throw := fun {B r c r' l} _ hres => by
    obtain ⟨a', s, l', -, ht, -⟩ := h B r
    simp [ht] at hres
  sticky := fun {B r} _ => by
    obtain ⟨a', s, l', hs, -, hq⟩ := h B r
    rw [hq]
    exact hs
  quiet := fun {B r c} => by
    obtain ⟨a', s, l', -, -, hq⟩ := h B r
    simp [hq]

theorem pure (a : α) : Sync (Pure.pure a : ReadM α) := of_eq fun _ r => ⟨a, r, [], rfl, rfl, rfl⟩

theorem bind {m : ReadM α} {f : α → ReadM β} (hm : Sync m) (hf : ∀ a, Sync (f a)) :
    Sync (m >>= f) where
  ret := fun he hres => by
    obtain ⟨a, s, l₁, l₂, h₁, h₂, rfl⟩ := Prog.bind_eq_ret hres
    obtain ⟨hs, hq₁⟩ := hm.ret he h₁
    obtain ⟨hr', hq₂⟩ := (hf a).ret hs h₂
    exact ⟨hr', by simp [hq₁, hq₂]⟩
  throw := fun {B r c r' l} he hres => by
    rw [Prog.bind_apply] at hres
    rcases h₁ : m B.throwing r with ⟨a | e | _, s, l₁⟩ <;> rw [h₁] at hres
    · -- the second part threw
      obtain ⟨hs, hq⟩ := hm.ret he h₁
      rcases h₂ : f a B.throwing s with ⟨o, s', l₂⟩
      rw [Res.bind_ret, h₂, Res.after_mk, Res.mk.injEq] at hres
      obtain ⟨rfl, rfl, -⟩ := hres
      obtain ⟨hc, hr', hq₂⟩ := (hf a).throw hs h₂
      exact ⟨hc, hr', by simpa [hq] using hq₂⟩
    · -- the first part threw; the quiet run goes on with the error recorded
      rw [Res.bind_throw, Res.mk.injEq] at hres
      obtain ⟨hec, rfl, -⟩ := hres
      obtain rfl := Out.throw.inj hec
      obtain ⟨hc, hr', hq⟩ := hm.throw he h₁
      refine ⟨hc, hr', ?_⟩
      rw [Prog.bind_apply]
      rcases h₂ : m B.quiet r with ⟨a | e' | _, s', l₂⟩ <;> rw [h₂] at hq
      · have hne : s'.error ≠ .none := fun h => hc (hq ▸ h)
        exact ((hf a).sticky hne).trans hq
      · exact absurd (congrArg Res.out h₂) hm.quiet
      · exact hq
    · simp at hres
  sticky := fun {B r} he => by
    have hst := hm.sticky (B := B) he
    rw [Prog.bind_apply]
    rcases h : m B.quiet r with ⟨a | e | _, s, l⟩ <;> rw [h] at hst
    · exact ((hf a).sticky (fun h' => he (hst ▸ h'))).trans hst
    · exact hst
    · exact hst
  quiet := fun {B r c} => by
    rw [Prog.bind_apply]
    rcases h : m B.quiet r with ⟨a | e | _, s, l⟩
    · exact (hf a).quiet
    · exact absurd (congrArg Res.out h) hm.quiet
    · simp

theorem fail {code : MemoryPackError} (hc : code ≠ .none) : Sync (Reader.fail code) where
  ret := fun {B r a r' l} _ hres => by
    rw [Reader.fail_throws rfl] at hres
    simp at hres
  throw := fun {B r c r' l} he hres => by
    rw [Reader.fail_throws rfl, Res.mk.injEq] at hres
    obtain ⟨hcode, rfl, -⟩ := hres
    obtain rfl := Out.throw.inj hcode
    rw [Reader.fail_returns rfl]
    simp [MemoryPackReader.record, he, hc]
  sticky := fun he => by
    rw [Reader.fail_returns rfl]
    simp [MemoryPackReader.record, he]
  quiet := fun {B r c} => by
    rw [Reader.fail_returns rfl]
    simp

theorem host {f : Build → ReadM α} (hf : ∀ B, Sync (f B))
    (hsame : ∀ B : Build, f B.throwing = f B.quiet) : Sync (Prog.ask >>= f) where
  ret := fun {B r a r' l} he hres => by
    have hrun : f B.throwing B.throwing r = ⟨.ret a, r', l⟩ := hres
    have h := (hf B.throwing).ret he hrun
    exact ⟨h.1, by simpa [hsame B] using h.2⟩
  throw := fun {B r c r' l} he hres => by
    have hrun : f B.throwing B.throwing r = ⟨.throw c, r', l⟩ := hres
    have h := (hf B.throwing).throw he hrun
    exact ⟨h.1, h.2.1, by simpa [hsame B] using h.2.2⟩
  sticky := fun {B r} he => (hf B.quiet).sticky he
  quiet := fun {B r c} => (hf B.quiet).quiet

theorem modify {f : MemoryPackReader → MemoryPackReader} (h : ∀ r, (f r).error = r.error) :
    Sync (Prog.modify f : ReadM Unit) := of_eq fun _ r => ⟨(), f r, [], h r, rfl, rfl⟩

theorem tell (e : ReadEvent) : Sync (Prog.tell e : ReadM Unit) :=
  of_eq fun _ r => ⟨(), r, [e], rfl, rfl, rfl⟩

theorem get : Sync (Prog.get : ReadM MemoryPackReader) :=
  of_eq fun _ r => ⟨r, r, [], rfl, rfl, rfl⟩

/-- The peek is guarded: with four bytes left it cannot fail, and a failed reader
peeks at a zero. -/
theorem nullTest : Sync Reader.nullCollectionTest := by
  refine of_eq fun B r => ?_
  by_cases h4 : 4 ≤ r.remaining
  · by_cases he : r.error = .none
    · exact ⟨_, _, _, rfl, Reader.nullCollectionTest_ok he h4, Reader.nullCollectionTest_ok he h4⟩
    · exact ⟨_, _, _, rfl, Reader.nullCollectionTest_failed he h4,
        Reader.nullCollectionTest_failed he h4⟩
  · exact ⟨_, _, _, rfl, Reader.nullCollectionTest_short h4, Reader.nullCollectionTest_short h4⟩

theorem setPos (pos : Nat) : Sync (Reader.setPos pos) := bind (modify fun _ => rfl) fun _ => tell _

theorem cursorRules : CursorRules (fun {α} => Sync (α := α)) :=
  .of_setPos ⟨pure, bind⟩ get (fun _ => tell _) fail setPos

theorem basicRules : BasicRules (fun {α} => Sync (α := α)) :=
  .of_host cursorRules setPos (fun _ => tell _) host nullTest

theorem objectBody {v : Val} {members : ReadM (List Val)} (hm : Sync members) :
    Sync (Reader.objectBody v members) := by
  have enter : Sync Reader.enterObject := by
    refine get.bind fun r => (tell _).bind fun _ => bind (modify fun _ => rfl) fun _ => ?_
    exact get.bind fun r => Prog.Closed.ite (fun _ => (fail (by decide)).bind fun _ => pure _)
      fun _ => pure _
  have leave : Sync Reader.leaveObject := modify fun r => by split <;> rfl
  refine enter.bind fun ok => Prog.Closed.ite (fun _ => pure _) fun _ => ?_
  exact (tell _).bind fun _ => hm.bind fun _ => (tell _).bind fun _ =>
    leave.bind fun _ => pure _

theorem diverge : Sync (Prog.diverge : ReadM Val) where
  ret := fun _ hres => by simp at hres
  throw := fun _ hres => by simp at hres
  sticky := fun _ => rfl
  quiet := by simp

/-- Every type of the codec, from every state. -/
theorem read (S : Schema) (t : Ty) (v : Val) : Sync (Reader.read S t v) :=
  basicRules.read objectBody diverge t v

end Sync

/-! ## A run that never failed -/

/-- A run without exceptions that ends without an error is also the run of the other
build. -/
structure Unfailed {α : Type} (m : ReadM α) : Prop where
  sync : Sync m
  throwing : ∀ {B : Build} {r a r' l}, r.error = .none → m B.quiet r = ⟨.ret a, r', l⟩ →
    r'.error = .none → m B.throwing r = ⟨.ret a, r', l⟩

namespace Unfailed

variable {α β : Type}

theorem of_eq {m : ReadM α} (hm : Sync m)
    (h : ∀ (B : Build) r, m B.throwing r = m B.quiet r) : Unfailed m :=
  ⟨hm, fun {B r _ _ _} _ hres _ => (h B r).trans hres⟩

theorem pure (a : α) : Unfailed (Pure.pure a : ReadM α) := of_eq (.pure a) fun _ _ => rfl

theorem bind {m : ReadM α} {f : α → ReadM β} (hm : Unfailed m) (hf : ∀ a, Unfailed (f a)) :
    Unfailed (m >>= f) where
  sync := hm.sync.bind fun a => (hf a).sync
  throwing := fun {B r b r' l} he hres he' => by
    obtain ⟨a, r₁, l₁, l₂, h₁, h₂, rfl⟩ := Prog.bind_eq_ret hres
    have he₁ : r₁.error = .none := by
      by_contra hne
      have hst := (hf a).sync.sticky (B := B) hne
      rw [h₂] at hst
      exact hne (hst.symm.trans he')
    rw [Prog.bind_apply, hm.throwing he h₁ he₁, Res.bind_ret, (hf a).throwing he₁ h₂ he',
      Res.after_mk]

theorem fail {code : MemoryPackError} (hc : code ≠ .none) : Unfailed (Reader.fail code) where
  sync := .fail hc
  throwing := fun {B r a r' l} _ hres he' => by
    rw [Reader.fail_returns rfl, Res.mk.injEq] at hres
    exact absurd (hres.2.1 ▸ he') (Reader.record_error_ne hc)

theorem host {f : Build → ReadM α} (hf : ∀ B, Unfailed (f B))
    (hsame : ∀ B : Build, f B.throwing = f B.quiet) : Unfailed (Prog.ask >>= f) where
  sync := .host (fun B => (hf B).sync) hsame
  throwing := fun {B r a r' l} he hres he' => by
    have hrun : f B.quiet B.quiet r = ⟨.ret a, r', l⟩ := hres
    have h := (hf B.quiet).throwing he hrun he'
    rw [← hsame] at h
    exact h

theorem nullTest : Unfailed Reader.nullCollectionTest := by
  refine of_eq .nullTest fun B r => ?_
  by_cases h4 : 4 ≤ r.remaining
  · by_cases he : r.error = .none
    · rw [Reader.nullCollectionTest_ok he h4, Reader.nullCollectionTest_ok he h4]
    · rw [Reader.nullCollectionTest_failed he h4, Reader.nullCollectionTest_failed he h4]
  · rw [Reader.nullCollectionTest_short h4, Reader.nullCollectionTest_short h4]

theorem basicRules : BasicRules (fun {α} => Unfailed (α := α)) := by
  have setPos : ∀ pos, Unfailed (Reader.setPos pos) := fun pos => of_eq (.setPos pos) fun _ _ => rfl
  have tell : ∀ e, Unfailed (Prog.tell e : ReadM Unit) := fun e => of_eq (.tell e) fun _ _ => rfl
  exact .of_host (.of_setPos ⟨pure, bind⟩ (of_eq .get fun _ _ => rfl) (fun _ => tell _) fail setPos)
    setPos (fun _ => tell _) host nullTest

theorem objectBody {v : Val} {members : ReadM (List Val)} (hm : Unfailed members) :
    Unfailed (Reader.objectBody v members) := by
  have modify : ∀ {f : MemoryPackReader → MemoryPackReader}, (∀ r, (f r).error = r.error) →
      Unfailed (Prog.modify f : ReadM Unit) := fun hf => of_eq (.modify hf) fun _ _ => rfl
  have tell : ∀ e, Unfailed (Prog.tell e : ReadM Unit) := fun e => of_eq (.tell e) fun _ _ => rfl
  have enter : Unfailed Reader.enterObject := by
    refine basicRules.get.bind fun r => (tell _).bind fun _ => bind (modify fun _ => rfl) fun _ => ?_
    exact basicRules.get.bind fun r => Prog.Closed.ite
      (fun _ => (fail (by decide)).bind fun _ => pure _) fun _ => pure _
  have leave : Unfailed Reader.leaveObject := modify fun r => by split <;> rfl
  refine enter.bind fun ok => Prog.Closed.ite (fun _ => pure _) fun _ => ?_
  exact (tell _).bind fun _ => hm.bind fun _ => (tell _).bind fun _ => leave.bind fun _ => pure _

theorem read (S : Schema) (t : Ty) (v : Val) : Unfailed (Reader.read S t v) :=
  basicRules.read objectBody (of_eq .diverge fun _ _ => rfl) t v

end Unfailed

/-! ## Decoding in the two builds -/

/-- The two runs of a decode: one run, or a thrown error and its recorded twin. -/
theorem read_builds_cases {S : Schema} (hS : S.NoVersionTolerant) (B : Build) (t : Ty) (v : Val)
    {r : MemoryPackReader} (he : r.error = .none) (hpos : r.pos ≤ r.size) :
    (∃ w r' l, r'.error = .none ∧ Reader.read S t v B.throwing r = ⟨.ret w, r', l⟩ ∧
      Reader.read S t v B.quiet r = ⟨.ret w, r', l⟩) ∨
    (∃ c r' l w r'' l', c ≠ .none ∧ r'.error = c ∧ r''.error = c ∧
      Reader.read S t v B.throwing r = ⟨.throw c, r', l⟩ ∧
      Reader.read S t v B.quiet r = ⟨.ret w, r'', l'⟩) := by
  have total : ∀ B, (Reader.read S t v B r).out ≠ .diverge := fun B =>
    (Bounded.read (Q := False) hS False.elim False.elim v hpos).total
  have hsync := Sync.read S t v
  rcases ht : Reader.read S t v B.throwing r with ⟨w | c | _, r', l⟩
  · obtain ⟨hr', hq⟩ := hsync.ret he ht
    exact .inl ⟨w, r', l, hr', rfl, hq⟩
  · obtain ⟨hc, hr', hq⟩ := hsync.throw he ht
    rcases hquiet : Reader.read S t v B.quiet r with ⟨w | c' | _, r'', l'⟩
    · rw [hquiet] at hq
      exact .inr ⟨c, r', l, w, r'', l', hc, hr', hq, rfl, rfl⟩
    · exact absurd (congrArg Res.out hquiet) hsync.quiet
    · exact absurd (congrArg Res.out hquiet) (total B.quiet)
  · exact absurd (congrArg Res.out ht) (total B.throwing)

/-- The exception build throws `c` exactly when the other build ends failed with
error `c`; otherwise both succeed with the same value and position. `TryDeserialize`
returns the same in both, with the code of the first failing check. -/
theorem read_builds_agree (S : Schema) (hS : S.NoVersionTolerant) (B : Build) (t : Ty) (v : Val)
    (data : List UInt8) (options : ReaderOptions) :
    (∀ c, (Reader.read S t v B.throwing { data := data, options := options }).out = .throw c ↔
      (∃ w, (Reader.read S t v B.quiet { data := data, options := options }).out = .ret w) ∧
      (Reader.read S t v B.quiet { data := data, options := options }).st.failed = true ∧
      (Reader.read S t v B.quiet { data := data, options := options }).st.error = c) ∧
    ((∀ c, (Reader.read S t v B.throwing { data := data, options := options }).out ≠ .throw c) →
      (∃ w, (Reader.read S t v B.throwing { data := data, options := options }).out = .ret w ∧
        (Reader.read S t v B.quiet { data := data, options := options }).out = .ret w) ∧
      (Reader.read S t v B.throwing { data := data, options := options }).st.failed = false ∧
      (Reader.read S t v B.quiet { data := data, options := options }).st.failed = false ∧
      (Reader.read S t v B.throwing { data := data, options := options }).st.pos =
        (Reader.read S t v B.quiet { data := data, options := options }).st.pos) ∧
    tryDeserialize S B.throwing t data = tryDeserialize S B.quiet t data ∧
    (∀ c, tryDeserialize S B.quiet t data = some (.error c) ↔
      (Reader.read S t (S.init t) B.throwing { data := data }).out = .throw c) := by
  refine ⟨?_, ?_, ?_⟩
  · intro c
    rcases read_builds_cases hS B t v (r := { data := data, options := options }) rfl
      (Nat.zero_le _) with ⟨w, r', l, he, ht, hq⟩ | ⟨c', r', l, w, r'', l', hc, -, he, ht, hq⟩
    · simp [ht, hq, MemoryPackReader.failed, he]
    · simp [ht, hq, MemoryPackReader.failed, he, hc]
  · intro hnot
    rcases read_builds_cases hS B t v (r := { data := data, options := options }) rfl
      (Nat.zero_le _) with ⟨w, r', l, he, ht, hq⟩ | ⟨c', r', l, w, r'', l', -, -, -, ht, -⟩
    · simp [ht, hq, MemoryPackReader.failed, he]
    · exact absurd (congrArg Res.out ht) (hnot c')
  · rcases read_builds_cases hS B t (S.init t) (r := { data := data }) rfl
      (Nat.zero_le _) with ⟨w, r', l, he, ht, hq⟩ | ⟨c, r', l, w, r'', l', hc, he', he, ht, hq⟩
    · simp [tryDeserialize, ht, hq, MemoryPackReader.failed, he]
    · simp [tryDeserialize, ht, hq, MemoryPackReader.failed, he, he', hc]

/-- A node whose member is cut off. -/
theorem read_builds_agree_node :
    tryDeserialize nodeSchema ⟨true, .little, .w64, 0⟩ (.object 0) [1] =
      tryDeserialize nodeSchema ⟨false, .little, .w64, 0⟩ (.object 0) [1] :=
  (read_builds_agree nodeSchema nodeSchema_noVersionTolerant ⟨true, .little, .w64, 0⟩ (.object 0)
    .none [1] {}).2.2.1

end MemoryPack
