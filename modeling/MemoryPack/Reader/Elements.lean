import MemoryPack.Reader.Limits

/-!
# Every element pays for itself

A declared length is only believed as far as the bytes that remain could hold it. The
first consequence is local: no request for memory asks for more elements than the
remaining bytes could encode. The second is global: after a successful decode, the
elements stored in variable-length containers, all nesting levels together, are fewer
than the bytes consumed.

`ChargedRun n` is the invariant behind the second: a run that ends without an error
consumed at least `n` bytes and one more for each element it stored. It composes
along a sequence, so an element is charged to a byte of its own at whatever depth it
is stored.

It needs the cursor to move forward. `VersionTolerantReader` seeks: `ReadMember` lets
a decoder run past the end its length entry records and then seeks back to that end,
so the same bytes can be read again as the next member. A run in which no `Seek` goes
backwards is `Forward`.
-/

namespace MemoryPack

open Effect

/-- The elements a run stored in variable-length containers. -/
def elementsOf : List ReadEvent → Nat
  | [] => 0
  | .elements n :: l => n + elementsOf l
  | _ :: l => elementsOf l

/-- No `Seek` of the run goes backwards. -/
def Forward (l : List ReadEvent) : Prop :=
  ∀ pos target failed, .sought pos target failed ∈ l → pos ≤ target

theorem elementsOf_append (l l' : List ReadEvent) :
    elementsOf (l ++ l') = elementsOf l + elementsOf l' := by
  induction l with
  | nil => simp [elementsOf]
  | cons e l ih => cases e <;> simp [elementsOf, ih, Nat.add_assoc]

theorem elementsOf_free {l : List ReadEvent} (h : ∀ e ∈ l, ∀ n, e ≠ .elements n) :
    elementsOf l = 0 := by
  induction l with
  | nil => rfl
  | cons e l ih =>
      obtain ⟨he, hl⟩ := List.forall_mem_cons.mp h
      cases e with
      | elements n => exact absurd rfl (he n)
      | _ => exact ih hl

theorem ReadEvent.Free.ne_elements {e : ReadEvent} (h : e.Free) (n : Nat) : e ≠ .elements n := by
  rintro rfl
  exact h

theorem forward_append {l l' : List ReadEvent} (h : Forward (l ++ l')) :
    Forward l ∧ Forward l' :=
  ⟨fun p q f hm => h p q f (List.mem_append_left _ hm),
    fun p q f hm => h p q f (List.mem_append_right _ hm)⟩

structure ChargedRun (n : Nat) {α : Type} (B : Build) (r : MemoryPackReader)
    (res : Res MemoryPackReader MemoryPackError ReadEvent α) : Prop where
  data : res.st.data = r.data
  error : res.st.error = .none → r.error = .none
  charge : ∀ a, res.out = .ret a → r.size < B.sizeMod → res.st.error = .none →
    Forward res.log → r.pos + n + elementsOf res.log ≤ res.st.pos

abbrev Charged (n : Nat) {α : Type} (m : ReadM α) : Prop := Always (ChargedRun n) m

variable {α β : Type} {n : Nat}

theorem ChargedRun.composes (a b : Nat) :
    Composes (ChargedRun a) (ChargedRun b) (ChargedRun (a + b)) where
  bind := by
    intro α β m f B r hm hf
    rw [Prog.bind_apply]
    rcases hres : m B r with ⟨x | e | _, r', l⟩
    · have h := hf x r' l hres
      rw [hres] at hm
      have hdata : r'.data = r.data := hm.data
      refine ⟨h.data.trans hdata, fun he => hm.error (h.error he), ?_⟩
      intro y hy hsize he hfwd
      obtain ⟨hl, hl'⟩ := forward_append hfwd
      have hsize' : r'.size < B.sizeMod := by
        rw [MemoryPackReader.size, hdata]
        exact hsize
      have hfirst := hm.charge x rfl hsize (h.error he) hl
      have hsecond := h.charge y hy hsize' he hl'
      show r.pos + (a + b) + elementsOf (l ++ _) ≤ _
      rw [elementsOf_append]
      simp only at hfirst hsecond ⊢
      have hst : (Res.bind ⟨.ret x, r', l⟩ fun a s' => f a B s').st.pos = (f x B r').st.pos := rfl
      omega
    · rw [hres] at hm
      exact ⟨hm.data, hm.error, fun a ha => by cases ha⟩
    · rw [hres] at hm
      exact ⟨hm.data, hm.error, fun a ha => by cases ha⟩

theorem ChargedRun.weaken {n' : Nat} {B : Build} {r : MemoryPackReader}
    {res : Res MemoryPackReader MemoryPackError ReadEvent α} (h : ChargedRun n B r res)
    (hn : n' ≤ n) : ChargedRun n' B r res :=
  ⟨h.data, h.error, fun a ha hs he hf => by
    have := h.charge a ha hs he hf
    omega⟩

/-- A run that moves the cursor from `r.pos` to `pos` and stores nothing. -/
theorem ChargedRun.move {B : Build} {r : MemoryPackReader} (a : α) (pos : Nat) {l : List ReadEvent}
    (hpos : Forward l → r.pos + n ≤ pos) (hl : ∀ e ∈ l, ∀ k, e ≠ .elements k) :
    ChargedRun n B r ⟨.ret a, { r with pos := pos }, l⟩ :=
  ⟨rfl, id, fun _ _ _ _ hf => by simpa [elementsOf_free hl] using hpos hf⟩

theorem ChargedRun.stay {B : Build} {r : MemoryPackReader} (a : α) {l : List ReadEvent}
    (hl : ∀ e ∈ l, ∀ k, e ≠ .elements k) : ChargedRun 0 B r ⟨.ret a, r, l⟩ :=
  .move a r.pos (fun _ => Nat.le_refl _) hl

namespace Charged

theorem weaken {n' : Nat} {m : ReadM α} (h : Charged n m) (hn : n' ≤ n) : Charged n' m :=
  fun B r => (h B r).weaken hn

theorem pure (a : α) : Charged 0 (Pure.pure a : ReadM α) := fun _ _ => .stay a (by simp)

theorem bind {a b : Nat} {m : ReadM α} {f : α → ReadM β} (hm : Charged a m)
    (hf : ∀ x, Charged b (f x)) : Charged (a + b) (m >>= f) :=
  fun B r => (ChargedRun.composes a b).bind (hm B r) fun x r' _ _ => hf x B r'

theorem closed : Prog.Closed (fun {α} => Charged 0 (α := α)) := ⟨pure, bind⟩

theorem get : Charged 0 (Prog.get : ReadM MemoryPackReader) := fun _ r => .stay r (by simp)

theorem tell {e : ReadEvent} (he : ∀ k, e ≠ .elements k) : Charged 0 (Prog.tell e) :=
  fun _ _ => .stay () (by simpa using he)

/-- A failure charges nothing: the run does not end without an error. -/
theorem failWith {code : MemoryPackError} (hc : code ≠ .none) (n : Nat) (a : α) :
    Charged n (do Reader.fail code; return a : ReadM α) := by
  intro B r
  have hne := Reader.record_error_ne (r := r) hc
  cases hB : B.exceptions with
  | true =>
      rw [Prog.bind_apply, Reader.fail_throws hB, Res.bind_throw]
      exact ⟨rfl, fun he => absurd he hne, fun a ha => by cases ha⟩
  | false =>
      rw [Prog.bind_apply, Reader.fail_returns hB, Res.bind_ret]
      exact ⟨rfl, fun he => absurd he hne, fun _ _ _ he => absurd he hne⟩

theorem fail {code : MemoryPackError} (hc : code ≠ .none) : Charged n (Reader.fail code) := by
  have h := failWith hc n ()
  intro B r
  have hrun := h B r
  cases hB : B.exceptions with
  | true =>
      rw [Prog.bind_apply, Reader.fail_throws hB] at hrun
      rw [Reader.fail_throws hB]
      exact hrun
  | false =>
      rw [Prog.bind_apply, Reader.fail_returns hB] at hrun
      rw [Reader.fail_returns hB]
      exact hrun

theorem takeBytes (n : Nat) : Charged n (Reader.takeBytes n) := by
  intro B r
  by_cases he : r.error = .none
  · by_cases hn : n ≤ r.remaining
    · rw [Reader.takeBytes_ok he hn]
      exact .move _ _ (fun _ => Nat.le_refl _) (by simp)
    · rw [Reader.takeBytes_short he (Nat.not_le.mp hn)]
      exact failWith (by decide) n none B r
  · rw [Reader.takeBytes_failed he]
    exact ⟨rfl, id, fun _ _ _ h => absurd h he⟩

theorem advance (n : Nat) : Charged n (Reader.advance n) := by
  intro B r
  by_cases he : r.error = .none
  · by_cases hn : n ≤ r.remaining
    · rw [Reader.advance_ok he hn]
      exact .move _ _ (fun _ => Nat.le_refl _) (by simp)
    · rw [Reader.advance_short he (Nat.not_le.mp hn)]
      exact fail (by decide) B r
  · rw [Reader.advance_failed he]
    exact ⟨rfl, id, fun _ _ _ h => absurd h he⟩

/-- The one statement that relies on the run going forward. -/
theorem seek (pos : Nat) : Charged 0 (Reader.seek pos) := by
  intro B r
  by_cases h : pos ≤ r.size
  · rw [Reader.seek_within h]
    exact .move () pos (fun hf => hf _ _ _ List.mem_cons_self) (by simp)
  · have hfail := fail (n := 0) (by decide : MemoryPackError.bufferUnderflow ≠ .none) B r
    rw [Reader.seek_past (Nat.not_le.mp h)]
    refine ⟨hfail.data, hfail.error, fun a ha hs he hf => ?_⟩
    exact hfail.charge a ha hs he (forward_append hf).2

theorem nullTest : Charged 0 Reader.nullCollectionTest := by
  intro B r
  by_cases h4 : 4 ≤ r.remaining
  · by_cases he : r.error = .none
    · rw [Reader.nullCollectionTest_ok he h4]
      exact .stay _ (by simp)
    · rw [Reader.nullCollectionTest_failed he h4]
      exact .stay _ (by simp)
  · rw [Reader.nullCollectionTest_short h4]
    exact .stay _ (by simp)

theorem hostRules : HostRules (fun {α} => Charged 0 (α := α)) :=
  .of_host
    { closed with
      get := get
      tell := fun he => tell he.ne_elements
      fail := fail
      takeBytes := fun n => (takeBytes n).weaken (Nat.zero_le n)
      advance := fun n => (advance n).weaken (Nat.zero_le n)
      seek := seek }
    (fun hf _ B r => (ChargedRun.composes 0 0).bind (m := Prog.ask) (.stay B (by simp))
      fun B' r' _ _ => hf B' B r') nullTest

theorem readRaw (w : Nat) : Charged w (Reader.readRaw w) := by
  refine bind (b := 0) (takeBytes w) fun o => ?_
  cases o with
  | none => exact pure _
  | some bs => exact hostRules.host (fun _ => pure _) fun _ => rfl

/-! ## Lengths and strings -/

theorem readCollectionLength (min : Nat) : Charged 4 (Reader.readCollectionLength min) := by
  refine bind (b := 0) (readRaw 4) fun n => ?_
  refine Prog.Closed.ite (fun _ => ?_) fun _ => hostRules.bind get fun r => ?_
  · exact Prog.Closed.ite (fun _ => failWith (by decide) 0 _) fun _ => pure _
  · refine Prog.Closed.ite (fun _ => failWith (by decide) 0 _) fun _ => ?_
    refine Prog.Closed.ite (fun _ => failWith (by decide) 0 _) fun _ => ?_
    exact hostRules.bind (tell (by simp)) fun _ => pure _

theorem readUtf16String (units : Nat) : Charged 0 (Reader.readUtf16String units) := by
  have hc := ChargedRun.composes 0 0
  apply hc.checkStringLength (hostRules.checkStringLength _ _)
  · refine hc.sizeProduct (hostRules.sizeProduct _ _) fun n => ?_
    refine hc.ensureBytes (hostRules.ensureBytes n) ?_ (pure _)
    refine hc.tell ((tell (by simp)).from _) (hc.get get fun s => ?_)
    refine hc.tell ((tell (by simp)).from _) ?_
    rintro B r ⟨⟨hok, he, -⟩, -⟩
    have hunits := hok.present (by decide)
    obtain ⟨l, hloop, hcur⟩ := Reader.utf16Loop_ok (B := B) units [] r he (by omega)
    rw [hloop]
    refine .move _ _ (fun _ => by omega) ?_
    rintro e he k rfl
    exact hcur _ he
  · exact pure _

theorem readString : Charged 4 Reader.readString := by
  refine bind (b := 0) (readRaw 4) fun n => hostRules.bind hostRules.failed fun b => ?_
  refine Prog.Closed.ite (fun _ => pure _) fun _ => ?_
  refine Prog.Closed.ite (fun _ => pure _) fun _ => ?_
  refine Prog.Closed.ite (fun _ => pure _) fun _ => ?_
  refine Prog.Closed.ite (fun _ => hostRules.map (readUtf16String _) some) fun _ => ?_
  refine hostRules.bind (hostRules.readRaw 4) fun _ =>
    hostRules.bind (hostRules.checkStringLength _ 1) fun ok => ?_
  refine Prog.Closed.ite (fun _ => pure _) fun _ => hostRules.bind (hostRules.takeBytes _) fun o => ?_
  cases o with
  | none => exact pure _
  | some bs => exact hostRules.bind (tell (by simp)) fun _ => pure _

/-! ## Collections -/

/-- Elements stored in bulk pay with the bytes of the copy. -/
theorem bulk {w count : Nat} (hw : 0 < w) {m : ReadM α} (hm : Copies w count m) :
    From (ChargedRun 0) (fun r => r.error = .none ∧ count * w ≤ r.remaining) (do
      Prog.tell (.alloc count w (← Prog.get).remaining)
      Prog.tell (.elements count)
      m : ReadM α) := by
  rintro B r ⟨he, hn⟩
  obtain ⟨a, pos, l, hrun, hl, -, hpos⟩ := hm B r he hn
  have heq : (do
      Prog.tell (.alloc count w (← Prog.get).remaining)
      Prog.tell (.elements count)
      m : ReadM α) B r = ⟨.ret a, { r with pos := pos },
        .alloc count w r.remaining :: .elements count :: l⟩ := by
    simp [hrun]
  rw [heq]
  refine ⟨rfl, id, fun _ _ hsize _ _ => ?_⟩
  have hrem : r.remaining ≤ r.size := Nat.sub_le _ _
  have hle : count ≤ count * w := Nat.le_mul_of_pos_right count hw
  simp only [elementsOf, elementsOf_free fun e he => (hl e he).ne_elements, hpos (by omega)]
  omega

theorem copies {w count : Nat} {m : ReadM α} (hm : Copies w count m) :
    From (ChargedRun 0) (fun r => r.error = .none ∧ count * w ≤ r.remaining) m := by
  rintro B r ⟨he, hn⟩
  obtain ⟨a, pos, l, hrun, hl, hle, -⟩ := hm B r he hn
  rw [hrun]
  exact .move a pos (fun _ => hle) fun e he => (hl e he).ne_elements

theorem readVector {w : Nat} (hw : 0 < w) : Charged 4 (Reader.readVector w) := by
  have hc := ChargedRun.composes 0 0
  refine (ChargedRun.composes 4 0).readCollectionLength (readCollectionLength w)
    (fun len hlen _ => ?_) (pure _)
  refine hc.sizeProduct (hostRules.sizeProduct _ _) fun n => ?_
  refine hc.ensureBytes (hostRules.ensureBytes n) ?_ (pure _)
  exact (bulk hw (copies_readContiguous w _)).weaken fun r h => ⟨h.2.1, h.1.2.mul_le hw⟩

theorem readVectorBool : Charged 4 Reader.readVectorBool := by
  have hc := ChargedRun.composes 0 0
  refine (ChargedRun.composes 4 0).readCollectionLength (readCollectionLength 1)
    (fun len hlen _ => ?_) (pure _)
  refine hc.ensureBytes (hostRules.ensureBytes _) ?_ (pure _)
  have hcopy : Copies 1 len.toNat (do
      let bs ← Reader.copy len.toNat
      Reader.bump len.toNat
      return bs.map fun b => if b ≠ 0 then 1 else 0 : ReadM (List Nat)) := copies_bytes _ _
  exact (bulk Nat.one_pos hcopy).weaken fun r h => ⟨h.2.1, h.1.2.mul_le Nat.one_pos⟩

theorem readUnmanagedCollection {size : Nat} (hsize : 0 < size) :
    Charged 4 (Reader.readUnmanagedCollection size) := by
  have hc := ChargedRun.composes 0 0
  refine (ChargedRun.composes 4 0).readCollectionLength (readCollectionLength size)
    (fun len hlen _ => ?_) (pure _)
  refine hc.sizeProduct (hostRules.sizeProduct _ _) fun n => ?_
  refine hc.ensureBytes (hostRules.ensureBytes n) ?_ (pure _)
  exact (bulk hsize (copies_product size _ _)).weaken fun r h => ⟨h.2.1, h.1.2.mul_le hsize⟩

/-- A fixed array stores no element of its own account. -/
theorem readArray {w : Nat} (hw : 0 < w) (maxCount : Int) :
    Charged 4 (Reader.readArray w maxCount) := by
  have hc := ChargedRun.composes 0 0
  rw [Reader.readArray_eq]
  refine (ChargedRun.composes 4 0).readCollectionLength (readCollectionLength w)
    (fun len hlen _ => ?_) (pure _)
  have hskip : ∀ k, Charged 0 (Reader.skipElements w k) := hostRules.skipElements w
  refine Prog.Closed.ite (P := fun m => From (ChargedRun 0) _ m) (fun _ => ?_) fun _ =>
    (hostRules.bind (hskip _) fun _ => pure _).from _
  refine hc.sizeProduct (hostRules.sizeProduct _ _) fun n => ?_
  refine hc.ensureBytes (hostRules.ensureBytes n) ?_ (pure _)
  have hcopy := copies (copies_readContiguous w
    (if len ≤ maxCount then len else maxCount).toNat)
  intro B r hr
  apply hc.bind (hcopy B r ⟨hr.2.1, ?_⟩)
  · intro stored r' _ _
    exact hostRules.bind (hskip _) (fun _ => pure _) B r'
  · have hle : (if len ≤ maxCount then len else maxCount).toNat ≤ len.toNat := by
      split <;> omega
    exact (Nat.mul_le_mul_right w hle).trans (hr.1.2.mul_le hw)

/-- An element that consumed a byte pays for being stored. -/
theorem stored {element : ReadM β} (he : Charged 1 element) (f : β → α) :
    Charged 0 (do
      let v ← element
      Prog.tell (.elements 1)
      return f v : ReadM α) := by
  intro B r
  have hrun := he B r
  rw [Prog.bind_apply]
  rcases hres : element B r with ⟨v | e | _, r', l⟩
  · rw [hres] at hrun
    refine ⟨hrun.data, hrun.error, fun a _ hsize herr hfwd => ?_⟩
    have hpaid := hrun.charge v rfl hsize herr (forward_append hfwd).1
    show r.pos + 0 + elementsOf (l ++ [.elements 1]) ≤ r'.pos
    rw [elementsOf_append]
    simp only [elementsOf] at hpaid ⊢
    omega
  · rw [hres] at hrun
    exact ⟨hrun.data, hrun.error, fun a ha => by cases ha⟩
  · rw [hres] at hrun
    exact ⟨hrun.data, hrun.error, fun a ha => by cases ha⟩

theorem elements {min : Nat} {reserve counted : Bool} {element : ReadM β} {store : α → β → α}
    {a : α} (hmin : 0 < min) (he : Charged min element) :
    Charged 4 (Reader.readElements min reserve counted element store a) := by
  have hbody : ∀ a, Charged 0 (do
      let v ← element
      if counted then Prog.tell (.elements 1)
      return store a v : ReadM α) := by
    intro a
    cases counted with
    | true => exact stored (he.weaken hmin) _
    | false => exact bind (b := 0) (he.weaken (Nat.zero_le _)) fun v => pure _
  refine bind (b := 0) (readCollectionLength min) fun len => ?_
  refine Prog.Closed.ite (fun _ => pure _) fun _ => ?_
  refine Prog.Closed.ite (fun _ => ?_) fun _ => hostRules.forWhile hbody _ _
  exact hostRules.bind get fun _ => hostRules.bind (tell (by simp)) fun _ =>
    hostRules.forWhile hbody _ _

/-! ## Null tests -/

theorem nullCollection {payload : ReadM Val} (hp : Charged 4 payload) :
    Charged 4 (Reader.nullCollectionDeserialize payload) := by
  rw [Reader.nullCollectionDeserialize_eq]
  refine (bind (a := 0) nullTest fun b => ?_).weaken (Nat.le_of_eq (Nat.zero_add 4).symm)
  exact Prog.Closed.ite (P := fun m => Charged 4 m)
    (fun _ => bind (b := 0) (advance 4) fun _ => pure _) fun _ => bind (b := 0) hp fun _ => pure _

theorem readByte : Charged 1 Reader.readByte := by
  refine bind (b := 0) (takeBytes 1) fun o => ?_
  cases o <;> exact pure _

theorem nullObject {payload : ReadM Val} (hp : Charged 1 payload) :
    Charged 1 (Reader.nullObjectDeserialize payload) := by
  refine (bind (a := 0) hostRules.peekIsNull fun b => ?_).weaken (Nat.le_of_eq (Nat.zero_add 1).symm)
  exact Prog.Closed.ite (P := fun m => Charged 1 m)
    (fun _ => bind (b := 0) readByte fun _ => pure _) fun _ => bind (b := 0) hp fun _ => pure _

theorem readNullableOf {t : Ty} (ht : wireNullEncoding t = .nullableValue) :
    Charged 1 (Reader.readNullableOf t) := by
  have nullable : ∀ {align size : Nat}, 0 < align →
      Charged 1 (Reader.readNullable align size) := by
    intro align size halign
    have hle := size_le_nullableSize halign size
    refine bind (b := 0) ((takeBytes _).weaken (by omega)) fun o => ?_
    cases o with
    | none => exact pure _
    | some src => exact Prog.Closed.ite (fun _ => pure _) fun _ => pure _
  cases t with
  | scalar s =>
      refine bind (b := 0) (nullable s.size_pos) fun o => ?_
      cases o with
      | none => exact pure _
      | some bs => exact hostRules.host (fun _ => pure _) fun _ => rfl
  | unmanaged u =>
      refine bind (b := 0) (nullable u.align_pos) fun o => ?_
      cases o <;> exact pure _
  | _ => simp [wireNullEncoding] at ht

/-! ## All types -/

theorem readRules : ReadRules (fun {α} n => Charged n (α := α)) (fun _ => True) where
  pure := pure
  bind := bind
  weaken := weaken
  takeBytes := takeBytes
  readRaw := readRaw
  failWith := fun n a hc => failWith hc n a
  advance := hostRules.advance
  readString := readString
  readVector := readVector
  readVectorBool := readVectorBool
  readArray := fun {n s} _ => readArray s.size_pos (asInt32 n)
  readNullableOf := fun _ ht => readNullableOf ht
  elements := elements
  nullCollection := nullCollection
  nullObject := nullObject
  undeclaredUnion := hostRules.undeclaredUnion

theorem objectBody {v : Val} {members : ReadM (List Val)} (hm : Charged 0 members) :
    Charged 0 (Reader.objectBody v members) := by
  have modify : ∀ {f : MemoryPackReader → MemoryPackReader}, (∀ r, ∃ d, f r = { r with depth := d }) →
      Charged 0 (Prog.modify f : ReadM Unit) := by
    intro f hf B r
    obtain ⟨d, hd⟩ := hf r
    rw [Prog.modify_apply, hd]
    exact ⟨rfl, id, fun _ _ _ _ _ => Nat.le_refl _⟩
  have enter : Charged 0 Reader.enterObject := by
    refine hostRules.bind get fun r => hostRules.bind (tell (by simp)) fun _ => ?_
    refine hostRules.bind (modify fun r => ⟨r.depth + 1, rfl⟩) fun _ => hostRules.bind get fun _ => ?_
    exact Prog.Closed.ite (fun _ => failWith (by decide) 0 _) fun _ => pure _
  have leave : Charged 0 Reader.leaveObject := by
    apply modify
    intro r
    split
    · exact ⟨r.depth - 1, rfl⟩
    · exact ⟨r.depth, rfl⟩
  refine hostRules.bind enter fun ok => Prog.Closed.ite (fun _ => pure _) fun _ => ?_
  refine hostRules.bind (tell (by simp)) fun _ => hostRules.bind hm fun vs => ?_
  exact hostRules.bind (tell (by simp)) fun _ => hostRules.bind leave fun _ => pure _

theorem construct : Charged 1 VersionTolerantReader.construct := by
  refine bind (b := 0) readRules.readObjectHeader fun header => ?_
  refine Prog.Closed.ite (fun _ => pure _) fun _ => ?_
  refine hostRules.bind (hostRules.forWhile (fun ls => ?_) _ _) fun _ =>
    hostRules.bind get fun _ => pure _
  exact hostRules.map hostRules.readVarIntLength fun n => ls ++ [n]

/-- Every user object starts with a header byte. -/
theorem readObject {S : Schema} : ∀ (fuel i : Nat) (v : Val),
    Charged 1 (Reader.readObject S fuel i v)
  | 0, _, _ => fun _ _ => ⟨rfl, id, fun a ha => by cases ha⟩
  | fuel + 1, i, v => by
      have hread : ∀ t ∈ (S.decl i).members, ∀ v,
          Charged 0 (Reader.readTy S (Reader.readObject S fuel) t v) := fun t _ v =>
        (readRules.readTy (readObject fuel) t (fun _ _ => trivial) v).weaken (Nat.zero_le _)
      rw [Reader.readObject]
      split
      · refine bind (b := 0) readRules.readObjectHeader fun header => ?_
        exact Prog.Closed.ite (fun _ => pure _) fun _ =>
          objectBody (hostRules.readMembers _ _ _ _ hread)
      · refine bind (b := 0) readRules.readObjectHeader fun header => ?_
        exact Prog.Closed.ite (fun _ => pure _) fun _ =>
          hostRules.bind (tell (by simp)) fun _ => pure _
      · refine bind (b := 0) construct fun vt => Prog.Closed.ite (fun _ => ?_) fun _ => ?_
        · exact hostRules.bind (tell (by simp)) fun _ => pure _
        · exact hostRules.bind (hostRules.versionTolerantMembers _ _ vt hread) fun x =>
            hostRules.bind (hostRules.finish x.2) fun _ => pure _

theorem read (S : Schema) (t : Ty) (v : Val) : Charged (Reader.wireMin t) (Reader.read S t v) :=
  (bind (a := 0) get fun r => readRules.readTy (readObject (r.size + 1)) t
    (fun _ _ => trivial) v).weaken (Nat.le_of_eq (Nat.zero_add _).symm)

end Charged

/-- A public operation that decodes a value: `Read<T>` and the typed collection
readers. -/
inductive Decode (S : Schema) : ∀ {α : Type}, ReadM α → Prop
  | read (t : Ty) (v : Val) : Decode S (Reader.read S t v)
  | readVector (s : Scalar) : Decode S (Reader.readVector s.size)
  | readVectorBool : Decode S Reader.readVectorBool
  | readStringVector : Decode S Reader.readStringVector
  | readCollection (t : Ty) : Decode S (Reader.readCollection t (Reader.read S t (S.init t)))
  | readUnmanagedCollection (u : Unmanaged) : Decode S (Reader.readUnmanagedCollection u.size)
  | readMap (o : Order) (k t : Ty) : Decode S (Reader.readMap S o k t (do
      let x ← Reader.read S k (S.init k)
      let y ← Reader.read S t (S.init t)
      return .pair x y))

theorem Charged.decode {S : Schema} {m : ReadM α} (h : Decode S m) : Charged 1 m := by
  have h4 : ∀ {β : Type} {m : ReadM β}, Charged 4 m → Charged 1 m := fun hm => hm.weaken (by decide)
  cases h with
  | read t v => exact (read S t v).weaken (Reader.wireMin_pos t)
  | readVector s => exact h4 (readVector s.size_pos)
  | readVectorBool => exact h4 readVectorBool
  | readStringVector =>
      exact h4 (elements (by decide) (bind (b := 0) readString fun _ => pure _))
  | readCollection t => exact h4 (readRules.readCollection (read S t _))
  | readUnmanagedCollection u => exact h4 (readUnmanagedCollection u.size_pos)
  | readMap o k t =>
      have hentry := bind (read S k (S.init k)) fun x =>
        bind (b := 0) (read S t (S.init t)) fun y => pure (Val.pair x y)
      refine h4 (elements (Nat.add_pos_left (Reader.minEncodedSize_pos k) _) (hentry.weaken ?_))
      exact Nat.add_le_add (Reader.minEncodedSize_le k) (Reader.minEncodedSize_le t)

end MemoryPack
