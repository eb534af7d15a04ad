import MemoryPack.Reader.Bounds

/-!
# Nesting of object bodies

`EnterObject` counts in a `uint32_t` and compares the count with `maxDepth`
afterwards. As long as the counter does not wrap, the bodies that are open at any
moment number at most `maxDepth`, and a read that did not fail leaves the counter
where it was. With `maxDepth = 2 ^ 32 - 1` the comparison can never fail, and an
input of `2 ^ 32` nested objects does wrap it.
-/

namespace MemoryPack

open Effect

/-! ## Open bodies in a log -/

/-- Bodies entered minus bodies left. -/
def ReadEvent.nest : ReadEvent → Int
  | .enterBody => 1
  | .leaveBody => -1
  | _ => 0

def nesting (l : List ReadEvent) : Int := (l.map ReadEvent.nest).sum

@[simp] theorem nesting_nil : nesting [] = 0 := rfl

@[simp] theorem nesting_cons (e : ReadEvent) (l : List ReadEvent) :
    nesting (e :: l) = e.nest + nesting l := by
  simp [nesting]

@[simp] theorem nesting_append (l₁ l₂ : List ReadEvent) :
    nesting (l₁ ++ l₂) = nesting l₁ + nesting l₂ := by
  simp [nesting]

theorem nesting_plain {l : List ReadEvent} (h : ∀ e ∈ l, e.Plain) : nesting l = 0 := by
  induction l with
  | nil => rfl
  | cons e l ih =>
      obtain ⟨he, hl⟩ := List.forall_mem_cons.mp h
      have hnest : e.nest = 0 := by cases e <;> first | rfl | exact he.elim
      rw [nesting_cons, hnest, ih hl, Int.add_zero]

/-- Along `l` the open bodies stay at most `max`, and the counter, `d` before and
`d'` after, stays above them. -/
def NestLog (max d : Nat) (l : List ReadEvent) (d' : Nat) : Prop :=
  ∀ n : Int, n ≤ d → n ≤ max →
    (∀ p, p <+: l → n + nesting p ≤ max) ∧ n + nesting l ≤ d'

theorem NestLog.append {max d d' d'' : Nat} {l₁ l₂ : List ReadEvent} (h₁ : NestLog max d l₁ d')
    (h₂ : NestLog max d' l₂ d'') : NestLog max d (l₁ ++ l₂) d'' := by
  intro n hd hmax
  obtain ⟨hpre₁, hend₁⟩ := h₁ n hd hmax
  obtain ⟨hpre₂, hend₂⟩ := h₂ (n + nesting l₁) hend₁ (hpre₁ l₁ List.prefix_rfl)
  refine ⟨fun p hp => ?_, by rw [nesting_append]; omega⟩
  rcases List.prefix_or_prefix_of_prefix hp (List.prefix_append l₁ l₂) with hp | ⟨q, rfl⟩
  · exact hpre₁ p hp
  · have := hpre₂ q ((List.prefix_append_right_inj l₁).mp hp)
    rw [nesting_append]
    omega

theorem NestLog.plain {max d d' : Nat} {l : List ReadEvent} (hl : ∀ e ∈ l, e.Plain)
    (hd : d ≤ d') : NestLog max d l d' := by
  intro n hn hmax
  refine ⟨fun p hp => ?_, ?_⟩
  · rw [nesting_plain fun e he => hl e (hp.subset he)]
    omega
  · rw [nesting_plain hl]
    omega

/-! ## The invariant -/

/-- No `EnterObject` of the run found the counter at its largest value. -/
def NoWrap (l : List ReadEvent) : Prop := ReadEvent.entering 0xFFFFFFFF ∉ l

theorem NoWrap.append {l₁ l₂ : List ReadEvent} (h : NoWrap (l₁ ++ l₂)) :
    NoWrap l₁ ∧ NoWrap l₂ :=
  ⟨fun h' => h (List.mem_append_left _ h'), fun h' => h (List.mem_append_right _ h')⟩

structure NestedRun (B : Build) {α : Type} (r : MemoryPackReader)
    (res : Res MemoryPackReader MemoryPackError ReadEvent α) : Prop where
  options : res.st.options = r.options
  error : r.error ≠ .none → res.st.error ≠ .none
  nest : NoWrap res.log →
    NestLog r.options.maxDepth.toNat r.depth.toNat res.log res.st.depth.toNat
  depth : NoWrap res.log → res.st.error = .none → (∃ a, res.out = .ret a) →
    res.st.depth = r.depth
  /-- where a failure ends the run, the counter never goes past `maxDepth` -/
  shallow : B.exceptions = true → r.depth ≤ r.options.maxDepth →
    (∀ d, .entering d ∈ res.log → d ≤ r.options.maxDepth) ∧
    (∀ a, res.out = .ret a → res.st.depth ≤ r.options.maxDepth)

def Nested {α : Type} (m : ReadM α) : Prop := ∀ B r, NestedRun B r (m B r)

variable {α β : Type} {B : Build} {r : MemoryPackReader}

namespace NestedRun

/-- A run that does not touch the counter. -/
theorem flat {res : Res MemoryPackReader MemoryPackError ReadEvent α}
    (ho : res.st.options = r.options) (hd : res.st.depth = r.depth)
    (he : r.error ≠ .none → res.st.error ≠ .none) (hl : ∀ e ∈ res.log, e.Plain) :
    NestedRun B r res :=
  ⟨ho, he, fun _ => .plain hl (by rw [hd]), fun _ _ _ => hd,
    fun _ hle => ⟨fun _ h => (hl _ h).elim, fun _ _ => hd ▸ hle⟩⟩

theorem bind {m : ReadM α} {f : α → ReadM β} (hm : NestedRun B r (m B r))
    (hf : ∀ a r', NestedRun B r' (f a B r')) : NestedRun B r ((m >>= f) B r) := by
  rw [Prog.bind_apply]
  rcases hres : m B r with ⟨a | e | _, r', l⟩
  · have h' := hf a r'
    rw [hres] at hm
    have hmax : r'.options = r.options := hm.options
    refine ⟨h'.options.trans hm.options, fun he => h'.error (hm.error he), fun hw => ?_,
      fun hw he ho => ?_, fun hB hle => ?_⟩
    · exact (hm.nest hw.append.1).append (hmax ▸ h'.nest hw.append.2)
    · have he' : r'.error = .none := by
        by_contra hne
        exact h'.error hne he
      exact (h'.depth hw.append.2 he ho).trans (hm.depth hw.append.1 he' ⟨a, rfl⟩)
    · obtain ⟨hlog, hend⟩ := hm.shallow hB hle
      obtain ⟨hlog', hend'⟩ := h'.shallow hB (hmax ▸ hend a rfl)
      rw [hmax] at hlog' hend'
      exact ⟨fun d hd => (List.mem_append.mp hd).elim (hlog d) (hlog' d), hend'⟩
  · rw [hres] at hm
    exact ⟨hm.options, hm.error, hm.nest, fun _ _ ho => by simp at ho,
      fun hB hle => ⟨(hm.shallow hB hle).1, by simp⟩⟩
  · rw [hres] at hm
    exact ⟨hm.options, hm.error, hm.nest, fun _ _ ho => by simp at ho,
      fun hB hle => ⟨(hm.shallow hB hle).1, by simp⟩⟩

end NestedRun

namespace Nested

theorem fail {code : MemoryPackError} (hc : code ≠ .none) : Nested (Reader.fail code) := by
  intro B r
  have herr : r.error ≠ .none → (r.record code).error ≠ .none :=
    fun _ => Reader.record_error_ne hc
  cases hB : B.exceptions with
  | true =>
      rw [Reader.fail_throws hB]
      exact .flat rfl rfl herr (by simp [ReadEvent.Plain])
  | false =>
      rw [Reader.fail_returns hB]
      exact .flat rfl rfl herr (by simp [ReadEvent.Plain])

theorem nullTest : Nested Reader.nullCollectionTest := by
  intro B r
  by_cases h4 : 4 ≤ r.remaining
  · by_cases he : r.error = .none
    · rw [Reader.nullCollectionTest_ok he h4]
      exact .flat rfl rfl id (by simp [ReadEvent.Plain])
    · rw [Reader.nullCollectionTest_failed he h4]
      exact .flat rfl rfl id (by simp)
  · rw [Reader.nullCollectionTest_short h4]
    exact .flat rfl rfl id (by simp)

theorem closed : Prog.Closed (fun {α} => Nested (α := α)) where
  pure := fun _ _ _ => .flat rfl rfl id (by simp)
  bind := fun hm hf B r => (hm B r).bind fun a r' => hf a B r'

theorem tell {e : ReadEvent} (he : e.Plain) : Nested (Prog.tell e) :=
  fun _ _ => .flat rfl rfl id (by simpa using he)

theorem setPos (pos : Nat) : Nested (Reader.setPos pos) :=
  fun _ _ => .flat rfl rfl id (by simp [Reader.setPos, ReadEvent.Plain])

theorem cursorRules : CursorRules (fun {α} => Nested (α := α)) :=
  .of_setPos closed (fun _ _ => .flat rfl rfl id (by simp)) (fun he => tell he.plain) fail setPos

theorem basicRules : BasicRules (fun {α} => Nested (α := α)) :=
  .of_host cursorRules setPos (fun he => tell he.plain)
    (fun hf _ B r => NestedRun.bind (m := Prog.ask) (.flat rfl rfl id (by simp))
      fun B' r' => hf B' B r') nullTest

end Nested

/-! ## Entering and leaving -/

theorem NestLog.enter {max d : Nat} {c : UInt32} (h : d + 1 ≤ max) :
    NestLog max d [.entering c, .enterBody] (d + 1) := by
  intro n hd hmax
  refine ⟨fun p hp => ?_, by simp [ReadEvent.nest]; omega⟩
  simp only [List.prefix_cons_iff, List.prefix_nil] at hp
  rcases hp with rfl | ⟨p, rfl, rfl | ⟨p, rfl, rfl⟩⟩ <;> simp [ReadEvent.nest] <;> omega

theorem NestLog.refused {max d d' : Nat} {c : UInt32} (h : d ≤ d') :
    NestLog max d [.entering c] d' := by
  intro n hd hmax
  refine ⟨fun p hp => ?_, by simp [ReadEvent.nest]; omega⟩
  simp only [List.prefix_cons_iff, List.prefix_nil] at hp
  rcases hp with rfl | ⟨p, rfl, rfl⟩ <;> simp [ReadEvent.nest] <;> omega

theorem NestLog.leave (max : Nat) (r : MemoryPackReader) :
    NestLog max r.depth.toNat [.leaveBody] r.left.depth.toNat := by
  have hleft : r.depth.toNat ≤ r.left.depth.toNat + 1 := by
    unfold MemoryPackReader.left
    split
    · next h =>
        have h1 : (1 : UInt32) ≤ r.depth := by
          rw [UInt32.le_iff_toNat_le]
          exact UInt32.lt_iff_toNat_lt.mp h
        rw [UInt32.toNat_sub_of_le _ _ h1]
        simp
        omega
    · omega
  intro n hd hmax
  refine ⟨fun p hp => ?_, by simp [ReadEvent.nest]; omega⟩
  simp only [List.prefix_cons_iff, List.prefix_nil] at hp
  rcases hp with rfl | ⟨p, rfl, rfl⟩ <;> simp [ReadEvent.nest] <;> omega

theorem entered_depth (h : r.depth ≠ 0xFFFFFFFF) :
    r.entered.depth.toNat = r.depth.toNat + 1 := by
  have hlt := r.depth.toNat_lt
  have hne : r.depth.toNat ≠ 0xFFFFFFFF := fun h' => h (UInt32.toNat_inj.mp h')
  rw [MemoryPackReader.entered, UInt32.toNat_add]
  exact Nat.mod_eq_of_lt (by simp; omega)

theorem left_le (r : MemoryPackReader) : r.left.depth ≤ r.depth := by
  unfold MemoryPackReader.left
  split
  · next h =>
      have h1 : (1 : UInt32) ≤ r.depth := UInt32.le_iff_toNat_le.mpr (UInt32.lt_iff_toNat_lt.mp h)
      rw [UInt32.le_iff_toNat_le, UInt32.toNat_sub_of_le _ _ h1]
      exact Nat.sub_le _ _
  · exact UInt32.le_refl _

theorem left_entered {s : MemoryPackReader} (h : r.depth ≠ 0xFFFFFFFF)
    (hs : s.depth = r.entered.depth) : s.left.depth = r.depth := by
  have hpos : s.depth > 0 := by
    rw [gt_iff_lt, UInt32.lt_iff_toNat_lt, hs, entered_depth h]
    exact Nat.succ_pos _
  rw [MemoryPackReader.left, if_pos hpos, hs, MemoryPackReader.entered]
  exact UInt32.add_sub_cancel ..

/-- One body: the counter goes up by one, the members keep the invariant, and the
counter comes back. -/
theorem Nested.objectBody {v : Val} {members : ReadM (List Val)} (hm : Nested members) :
    Nested (Reader.objectBody v members) := by
  intro B r
  by_cases hdeep : r.depth + 1 > r.options.maxDepth
  · have herr : (r.entered.record .lengthLimit).error ≠ .none := Reader.record_error_ne (by decide)
    have hnest : NoWrap [.entering r.depth, .failure r.pos .lengthLimit] →
        NestLog r.options.maxDepth.toNat r.depth.toNat
          ([.entering r.depth] ++ [.failure r.pos .lengthLimit])
          (r.entered.record .lengthLimit).depth.toNat := fun hw =>
      (NestLog.refused (Nat.le_of_succ_le
        (entered_depth (r := r) fun h => hw (by simp [h])).symm.le)).append
          (.plain (by simp [ReadEvent.Plain]) (Nat.le_refl _))
    rw [Reader.objectBody_deep hdeep]
    cases hB : B.exceptions with
    | true =>
        rw [Reader.fail_throws hB]
        exact ⟨rfl, fun _ => herr, hnest, fun _ he => absurd he herr,
          fun _ hle => ⟨by simpa using hle, by simp⟩⟩
    | false =>
        rw [Reader.fail_returns hB]
        exact ⟨rfl, fun _ => herr, hnest, fun _ he => absurd he herr,
          fun hB' => absurd (hB.symm.trans hB') (by decide)⟩
  · have hrun := hm B r.entered
    have hopen : NoWrap [ReadEvent.entering r.depth, .enterBody] →
        NestLog r.options.maxDepth.toNat r.depth.toNat [.entering r.depth, .enterBody]
          r.entered.depth.toNat := fun hw => by
      have hd := entered_depth (r := r) fun h => hw (by simp [h])
      rw [hd]
      refine .enter ?_
      rw [← hd]
      exact UInt32.le_iff_toNat_le.mp (UInt32.not_lt.mp hdeep)
    have hle' : r.entered.depth ≤ r.options.maxDepth := UInt32.not_lt.mp hdeep
    have hlog : B.exceptions = true → r.depth ≤ r.options.maxDepth →
        ∀ d, .entering d ∈ [ReadEvent.entering r.depth, .enterBody] ++
          (members B r.entered).log → d ≤ r.options.maxDepth := fun hB hle d hd =>
      (List.mem_append.mp hd).elim (fun h => by
        obtain rfl : d = r.depth := by simpa using h
        exact hle) ((hrun.shallow hB hle').1 d)
    rw [Reader.objectBody_open hdeep]
    rcases hres : members B r.entered with ⟨vs | e | _, s, l⟩ <;>
      rw [hres] at hrun hlog
    · have hleft : s.left.options = s.options ∧ s.left.error = s.error := by
        unfold MemoryPackReader.left
        split <;> exact ⟨rfl, rfl⟩
      have hsplit : NoWrap ([.entering r.depth, .enterBody] ++ (l ++ [.leaveBody])) → _ :=
        NoWrap.append
      refine ⟨hleft.1.trans hrun.options, fun he => ?_, fun hw => ?_, fun hw he _ => ?_,
        fun hB hle => ⟨fun d hd => ?_, fun _ _ => ?_⟩⟩
      · exact hleft.2 ▸ hrun.error he
      · obtain ⟨hw₁, hw₂⟩ := hsplit hw
        exact (hopen hw₁).append ((hrun.nest hw₂.append.1).append (.leave _ s))
      · obtain ⟨hw₁, hw₂⟩ := hsplit hw
        refine left_entered (fun h => hw₁ (by simp [h])) ?_
        exact hrun.depth hw₂.append.1 (hleft.2 ▸ he) ⟨vs, rfl⟩
      · exact hlog hB hle d (by simpa using hd)
      · exact UInt32.le_trans (left_le s) ((hrun.shallow hB hle').2 vs rfl)
    · exact ⟨hrun.options, hrun.error, fun hw => (hopen hw.append.1).append (hrun.nest hw.append.2),
        fun _ _ ho => by simp at ho, fun hB hle => ⟨hlog hB hle, by simp⟩⟩
    · exact ⟨hrun.options, hrun.error, fun hw => (hopen hw.append.1).append (hrun.nest hw.append.2),
        fun _ _ ho => by simp at ho, fun hB hle => ⟨hlog hB hle, by simp⟩⟩

theorem Nested.diverge : Nested (Prog.diverge : ReadM Val) :=
  fun _ _ => .flat rfl rfl id (by simp)

theorem Nested.read (S : Schema) (t : Ty) (v : Val) : Nested (Reader.read S t v) :=
  basicRules.read objectBody diverge t v

/-! ## Decoding hostile input -/

/-- Decoding terminates; the cursor stays inside the input at every step and does
not end before it started; every byte read lies in the input; no product wraps;
and while the depth counter does not wrap, at most `maxDepth` bodies are open at
any moment and a read that did not fail restores the counter. -/
theorem read_safe (S : Schema) (hS : S.NoVersionTolerant) (B : Build) (hSB : S.FitsIn B)
    (t : Ty) (ht : t.FitsIn B) (v : Val) (r : MemoryPackReader) (hsize : r.size < B.sizeMod)
    (hpos : r.pos ≤ r.size) :
    (Reader.read S t v B r).out ≠ .diverge ∧
    r.pos ≤ (Reader.read S t v B r).st.pos ∧ (Reader.read S t v B r).st.pos ≤ r.size ∧
    (∀ pos, .moved pos ∈ (Reader.read S t v B r).log → pos ≤ r.size) ∧
    (∀ start n, .access start n ∈ (Reader.read S t v B r).log → start + n ≤ r.size) ∧
    (∀ a b, .product a b ∈ (Reader.read S t v B r).log → a * b < B.sizeMod) ∧
    (.entering 0xFFFFFFFF ∉ (Reader.read S t v B r).log →
      (r.depth ≤ r.options.maxDepth → ∀ p, p <+: (Reader.read S t v B r).log →
        r.depth.toNat + nesting p ≤ r.options.maxDepth.toNat) ∧
      (∀ w, (Reader.read S t v B r).out = .ret w →
        (Reader.read S t v B r).st.error = .none →
          (Reader.read S t v B r).st.depth = r.depth)) ∧
    (B.exceptions = true → r.depth ≤ r.options.maxDepth → r.options.maxDepth ≠ 0xFFFFFFFF →
      .entering 0xFFFFFFFF ∉ (Reader.read S t v B r).log) := by
  have hb : BoundedRun B True r (Reader.read S t v B r) :=
    Bounded.read hS (fun _ => hSB) (fun _ => ht) v hpos
  have hn := Nested.read S t v B r
  refine ⟨hb.total, hb.pos_le, hb.le_size, fun pos h => hb.events _ h,
    fun start n h => hb.events _ h, hb.products trivial hsize, fun hw => ⟨fun hd p hp => ?_,
      fun w ho he => hn.depth hw he ⟨w, ho⟩⟩, fun hB hd hne hmem => ?_⟩
  · have hd' : r.depth.toNat ≤ r.options.maxDepth.toNat := UInt32.le_iff_toNat_le.mp hd
    exact (hn.nest hw r.depth.toNat (Int.le_refl _) (by omega)).1 p hp
  · have hle := UInt32.le_iff_toNat_le.mp ((hn.shallow hB hd).1 _ hmem)
    have hlt := r.options.maxDepth.toNat_lt
    have heq : r.options.maxDepth.toNat = 0xFFFFFFFF := by
      simp at hle
      omega
    exact hne (UInt32.toNat_inj.mp heq)

/-! ## A list of nodes -/

/-- `struct Node { std::unique_ptr<Node> next; };` -/
def nodeSchema : Schema where
  decl := fun _ => ⟨.define, [.pointer .unique (.object 0)], [.none], rfl, by simp, by simp⟩
  less := fun _ _ _ => false
  equal := fun _ _ _ => false

theorem nodeSchema_noVersionTolerant : nodeSchema.NoVersionTolerant := fun _ => by
  simp [nodeSchema]

theorem nodeSchema_fitsIn (B : Build) : nodeSchema.FitsIn B := by
  intro i t ht n s hmem
  obtain rfl : t = .pointer .unique (.object 0) := by simpa [nodeSchema] using ht
  simp [Ty.parts] at hmem

/-- A chain of `n` nodes. -/
def nodes (n : Nat) : List UInt8 := List.replicate n 1 ++ [nullObject]

/-- On a 32-bit target, a chain of two nodes. -/
theorem read_safe_nodes :
    (Reader.read nodeSchema (.object 0) (.seq [.none]) ⟨false, .big, .w32, 0⟩
      { data := nodes 2 }).out ≠ .diverge :=
  (read_safe nodeSchema nodeSchema_noVersionTolerant ⟨false, .big, .w32, 0⟩ (nodeSchema_fitsIn _)
    (.object 0) (fun n s h => by simp [Ty.parts] at h) (.seq [.none]) { data := nodes 2 }
    (by decide) (by decide)).1

/-- The member of a node, past the peek at a byte that is not null. -/
theorem nodes_member {B : Build} {fuel : Nat} {v : Val} {r : MemoryPackReader} {n : Nat}
    (hrest : r.rest = nodes (n + 1)) :
    ReadEvent.access r.pos 1 :: (Reader.readObject nodeSchema fuel 0 (.seq [.none]) B r).log <+:
      (Reader.readMembers nodeSchema (Reader.readTy nodeSchema (Reader.readObject nodeSchema fuel))
        1 0 [.pointer .unique (.object 0)] v.items B r).log := by
  have hlt : ¬ r.pos ≥ r.size := fun hge => by
    simp [MemoryPackReader.rest, List.drop_eq_nil_of_le hge, nodes] at hrest
  have hpeek : Reader.peekIsNull B r = ⟨.ret false, r, [.access r.pos 1]⟩ := by
    simp [Reader.peekIsNull, hlt, hrest, nodes, List.replicate_succ, nullObject]
  have hpointer : ReadEvent.access r.pos 1 ::
      (Reader.readObject nodeSchema fuel 0 (.seq [.none]) B r).log <+:
      (Reader.readTy nodeSchema (Reader.readObject nodeSchema fuel) (.pointer .unique (.object 0))
        (v.items.headD .none) B r).log := by
    rw [Reader.readTy, Reader.nullObjectDeserialize, Prog.bind_apply, hpeek, Res.bind_ret,
      Res.after_log, Reader.readTy]
    exact (List.prefix_append_right_inj [_]).mpr (Res.log_prefix_bind _ _)
  exact hpointer.trans (Res.log_prefix_bind _ _)

/-- With `maxDepth` at its largest value no depth is refused: a chain of `n + 1`
nodes has a moment at which `n + 1` bodies are open. -/
theorem nodes_nesting (B : Build) : ∀ (n fuel : Nat) (v : Val) (r : MemoryPackReader),
    n < fuel → r.error = .none → r.options.maxDepth = 0xFFFFFFFF → r.rest = nodes (n + 1) →
      ∃ p, p <+: (Reader.readObject nodeSchema fuel 0 v B r).log ∧ nesting p = n + 1
  | n, fuel + 1, v, r, hfuel, he, hmax, hrest => by
      have hhead : r.rest.headD 0 = 1 := by simp [hrest, nodes, List.replicate_succ]
      have h1 : 1 ≤ r.remaining := by
        have hlen : r.rest.length = r.remaining := List.length_drop
        simp [hrest, nodes] at hlen
        omega
      have hopen : ¬ r.depth + 1 > r.options.maxDepth := by
        rw [hmax, gt_iff_lt, UInt32.lt_iff_toNat_lt]
        have := (r.depth + 1).toNat_lt
        simp
        omega
      have hheader := Reader.readObjectHeader_ok (B := B) he h1 (hhead ▸ by decide)
      rw [hhead] at hheader
      rw [Reader.readObject_define rfl, Reader.defineDeserialize, Prog.bind_apply, hheader,
        Res.bind_ret, Res.after_log, if_neg (by decide),
        Reader.objectBody_open (r := { r with pos := r.pos + 1 }) hopen,
        Res.after_log, ← List.append_assoc]
      set r₁ : MemoryPackReader := ({ r with pos := r.pos + 1 } : MemoryPackReader).entered
      match n with
      | 0 =>
          refine ⟨_, List.prefix_append _ _, ?_⟩
          simp [ReadEvent.nest]
      | n + 1 =>
          have hrest₁ : r₁.rest = nodes (n + 1) := by
            have h := Reader.rest_add r 1
            rw [hrest] at h
            exact h
          obtain ⟨p, hp, hnest⟩ := nodes_nesting B n fuel (.seq [.none]) r₁ (by omega) he hmax hrest₁
          refine ⟨_ ++ (.access r₁.pos 1 :: p), (List.prefix_append_right_inj _).mpr ?_, ?_⟩
          · refine List.IsPrefix.trans ?_ ((nodes_member (v := v) hrest₁).trans
              (Res.log_prefix_bind _ _))
            exact (List.prefix_append_right_inj [_]).mpr hp
          · simp [ReadEvent.nest, hnest]
            omega

theorem nodes_read_nesting (B : Build) {n m : Nat} (hm : m = n + 1) :
    ∃ p, p <+: (Reader.read nodeSchema (.object 0) (.seq [.none]) B
        { data := nodes m, options := { maxDepth := 0xFFFFFFFF } }).log ∧
      nesting p = n + 1 := by
  have hlen : (nodes m).length = m + 1 := by simp [nodes]
  rw [Reader.read, Prog.bind_apply, Prog.get_apply, Res.bind_ret, Res.after_nil, Reader.readTy]
  refine nodes_nesting B n _ _ _ ?_ rfl rfl (by rw [← hm]; rfl)
  rw [MemoryPackReader.size, hlen]
  omega

/-- A chain of `2 ^ 32` nodes read with the largest `maxDepth`: the counter wraps,
and `2 ^ 32` bodies are open at once. -/
theorem nodes_exceed_maxDepth :
    ∃ p, p <+: (Reader.read nodeSchema (.object 0) (.seq [.none]) ⟨true, .little, .w64, 0⟩
        { data := nodes 0x100000000, options := { maxDepth := 0xFFFFFFFF } }).log ∧
      ¬ nesting p ≤ (0xFFFFFFFF : UInt32).toNat := by
  obtain ⟨p, hp, hnest⟩ := nodes_read_nesting ⟨true, .little, .w64, 0⟩
    (n := 0xFFFFFFFF) (m := 0x100000000) (by norm_num)
  exact ⟨p, hp, by rw [hnest]; decide⟩

end MemoryPack
