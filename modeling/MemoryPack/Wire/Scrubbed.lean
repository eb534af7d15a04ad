import MemoryPack.Wire.RoundTrip

/-!
# What padding can reach the wire

Two values with the same members may differ in the padding of the structs they hold.
`Agree` compares two values of one type, structs by a relation given for them: one for
the places where `Write` sends a struct through its formatter, one for a struct held
directly by a `std::optional`, which is sent by `WriteNullable`.

The formatter of a scrubbed struct sends its members and zeros. `WriteNullable` copies
the struct's memory, whatever its registration says. So values with the same members
are written alike exactly when the structs behind `std::optional` agree on every byte.
-/

namespace MemoryPack

open Effect LittleEndian

/-- Two structs in memory with the same members. The members of a struct that is not
scrubbed are all its bytes. -/
def SameMembers (u : Unmanaged) (bs cs : List UInt8) : Prop :=
  match u.scrubbed with
  | none => bs = cs
  | some members => bs.length = u.size ∧ cs.length = u.size ∧
      ∀ i, Covered members i → bs[i]? = cs[i]?

mutual
/-- Equal but for the memory of structs, which `held` relates behind a `std::optional`
and `plain` elsewhere. -/
def Agree (S : Schema) (plain held : Unmanaged → List UInt8 → List UInt8 → Prop) :
    Ty → Val → Val → Prop
  | .vector t, .seq vs, .seq ws => AgreeEach S plain held t vs ws
  | .sequence _ t, .seq vs, .seq ws => AgreeEach S plain held t vs ws
  | .array _ t, .seq vs, .seq ws => AgreeEach S plain held t vs ws
  | .set _ t, .seq vs, .seq ws => AgreeEach S plain held t vs ws
  | .map _ k t, .seq vs, .seq ws => AgreeEach S plain held (.pair k t) vs ws
  | .pair a b, .pair x y, .pair x' y' => Agree S plain held a x x' ∧ Agree S plain held b y y'
  | .tuple ts, .seq vs, .seq ws => AgreeMembers S plain held ts vs ws
  | .optional t, .some v, .some w =>
      match t, v, w with
      | .unmanaged u, .bytes bs, .bytes cs => held u bs cs
      | t, v, w => Agree S plain held t v w
  | .pointer _ t, .some v, .some w => Agree S plain held t v w
  | .variant _ ts, .alt i v, .alt j w => i = j ∧ Agree S plain held (ts.getD i .string) v w
  | .unmanaged u, .bytes bs, .bytes cs => plain u bs cs
  | .object i, .seq vs, .seq ws => AgreeMembers S plain held (S.decl i).members vs ws
  | _, v, w => v = w

def AgreeEach (S : Schema) (plain held : Unmanaged → List UInt8 → List UInt8 → Prop) (t : Ty) :
    List Val → List Val → Prop
  | [], [] => True
  | v :: vs, w :: ws => Agree S plain held t v w ∧ AgreeEach S plain held t vs ws
  | _, _ => False

def AgreeMembers (S : Schema) (plain held : Unmanaged → List UInt8 → List UInt8 → Prop) :
    List Ty → List Val → List Val → Prop
  | t :: ts, v :: vs, w :: ws => Agree S plain held t v w ∧ AgreeMembers S plain held ts vs ws
  | _, vs, ws => vs = ws
end

/-- Values that are compared part by part. -/
def Val.composite : Ty → Val → Bool
  | .vector _, .seq _ => true
  | .sequence _ _, .seq _ => true
  | .array _ _, .seq _ => true
  | .set _ _, .seq _ => true
  | .map _ _ _, .seq _ => true
  | .pair _ _, .pair _ _ => true
  | .tuple _, .seq _ => true
  | .optional _, .some _ => true
  | .pointer _ _, .some _ => true
  | .variant _ _, .alt _ _ => true
  | .unmanaged _, .bytes _ => true
  | .object _, .seq _ => true
  | _, _ => false

/-- All others are compared as they are. -/
theorem agree_leaf {S : Schema} {plain held : Unmanaged → List UInt8 → List UInt8 → Prop}
    {t : Ty} {v w : Val} (h : v.composite t = false) : Agree S plain held t v w ↔ v = w := by
  rw [Agree]
  all_goals
    intros
    subst_vars
    simp [Val.composite] at h

/-! ## Structs -/

theorem SameMembers.scrub_eq {u : Unmanaged} {members : List (Nat × Nat)} {bs cs : List UInt8}
    (hu : u.scrubbed = some members) (h : SameMembers u bs cs) :
    Writer.scrub u.size members bs = Writer.scrub u.size members cs := by
  rw [SameMembers, hu] at h
  obtain ⟨hbs, hcs, hcovered⟩ := h
  rw [MemoryPack.scrub_eq members hbs, MemoryPack.scrub_eq members hcs]
  apply List.ext_getElem?
  intro i
  rw [List.getElem?_mapIdx, List.getElem?_mapIdx]
  by_cases hi : Covered members i
  · rw [hcovered i hi]
  · rcases Nat.lt_or_ge i u.size with hlt | hge
    · rw [List.getElem?_eq_getElem (hbs ▸ hlt), List.getElem?_eq_getElem (hcs ▸ hlt)]
      simp [hi]
    · rw [List.getElem?_eq_none (hbs ▸ hge), List.getElem?_eq_none (hcs ▸ hge)]

/-- A formatter sends nothing but the members. -/
theorem SameMembers.unmanagedSerialize_eq {u : Unmanaged} {bs cs : List UInt8}
    (h : SameMembers u bs cs) :
    Writer.unmanagedSerialize u bs = Writer.unmanagedSerialize u cs := by
  cases hu : u.scrubbed with
  | none =>
      rw [SameMembers, hu] at h
      rw [h]
  | some members =>
      unfold Writer.unmanagedSerialize
      rw [hu]
      show Writer.writeBytes _ = Writer.writeBytes _
      rw [SameMembers.scrub_eq hu h]

/-! ## Enough: the same program -/

section Enough

variable {S : Schema} {plain held : Unmanaged → List UInt8 → List UInt8 → Prop} {t : Ty}
  {v w : Val}

/-- Scalars hold no struct. -/
theorem Agree.eq_of_scalar {s : Scalar}
    (h : Agree S plain held (.scalar s) v w) : v = w := (agree_leaf rfl).mp h

theorem agreeEach_eq_of_scalar {s : Scalar} : ∀ {vs ws : List Val}, AgreeEach S plain held (.scalar s) vs ws → vs = ws
  | [], [], _ => rfl
  | v :: vs, w :: ws, h => by
      rw [AgreeEach] at h
      rw [h.1.eq_of_scalar, agreeEach_eq_of_scalar h.2]
  | [], w :: ws, h => by simp [AgreeEach] at h
  | v :: vs, [], h => by simp [AgreeEach] at h

theorem AgreeEach.length_eq :
    ∀ {vs ws : List Val}, AgreeEach S plain held t vs ws → vs.length = ws.length
  | [], [], _ => rfl
  | v :: vs, w :: ws, h => by
      rw [AgreeEach] at h
      rw [List.length_cons, List.length_cons, h.2.length_eq]
  | [], w :: ws, h => by simp [AgreeEach] at h
  | v :: vs, [], h => by simp [AgreeEach] at h

theorem elementWrites_eq_of_agree :
    ∀ {vs ws : List Val}, AgreeEach S plain held t vs ws →
      (∀ v ∈ vs, ∀ w, Agree S plain held t v w → Writer.write S t v = Writer.write S t w) →
      Writer.elementWrites S t vs = Writer.elementWrites S t ws
  | [], [], _, _ => rfl
  | v :: vs, w :: ws, h, hwrite => by
      rw [AgreeEach] at h
      obtain ⟨hv, hvs⟩ := List.forall_mem_cons.mp hwrite
      rw [Writer.elementWrites, Writer.elementWrites, hv w h.1, elementWrites_eq_of_agree h.2 hvs]
  | [], w :: ws, h, _ => by simp [AgreeEach] at h
  | v :: vs, [], h, _ => by simp [AgreeEach] at h

theorem memberWrites_eq_of_agree :
    ∀ {ts : List Ty} {vs ws : List Val}, AgreeMembers S plain held ts vs ws →
      (∀ v ∈ vs, ∀ t w, Agree S plain held t v w → Writer.write S t v = Writer.write S t w) →
      Writer.memberWrites S ts vs = Writer.memberWrites S ts ws
  | [], vs, ws, h, _ => by rw [Writer.memberWrites, Writer.memberWrites] <;> simp
  | t :: ts, [], ws, h, _ => by
      obtain rfl : [] = ws := by simpa [AgreeMembers] using h
      rfl
  | t :: ts, v :: vs, [], h, _ => by simp [AgreeMembers] at h
  | t :: ts, v :: vs, w :: ws, h, hwrite => by
      rw [AgreeMembers] at h
      obtain ⟨hv, hvs⟩ := List.forall_mem_cons.mp hwrite
      rw [Writer.memberWrites, Writer.memberWrites, hv t w h.1, memberWrites_eq_of_agree h.2 hvs]

/-- The values that agree with a container's. -/
theorem Agree.seq_right {vs : List Val} (h : Agree S plain held t (.seq vs) w) :
    ∃ ws, w = .seq ws := by
  cases w with
  | seq ws => exact ⟨ws, rfl⟩
  | _ => cases t <;> simp [Agree] at h

theorem writeCollection_eq_of_agree {vs ws : List Val} (h : AgreeEach S plain held t vs ws)
    (helements : Writer.elementWrites S t vs = Writer.elementWrites S t ws) :
    Writer.writeCollection t vs (Writer.elementWrites S t vs) =
      Writer.writeCollection t ws (Writer.elementWrites S t ws) := by
  cases t with
  | scalar s => rw [agreeEach_eq_of_scalar h]
  | _ =>
      rw [helements]
      unfold Writer.writeCollection
      rw [h.length_eq]

theorem writeCollectionSpan_eq_of_agree {vs ws : List Val} (h : AgreeEach S plain held t vs ws)
    (helements : Writer.elementWrites S t vs = Writer.elementWrites S t ws) :
    Writer.writeCollectionSpan t vs (Writer.elementWrites S t vs) =
      Writer.writeCollectionSpan t ws (Writer.elementWrites S t ws) := by
  cases t with
  | scalar s => rw [agreeEach_eq_of_scalar h]
  | _ =>
      rw [helements]
      unfold Writer.writeCollectionSpan
      rw [h.length_eq]

/-- What a `std::optional` holds: a struct, or something compared as it is elsewhere. -/
theorem Agree.of_some (h : Agree S plain held (.optional t) (.some v) (.some w)) :
    (∃ u bs cs, t = .unmanaged u ∧ v = .bytes bs ∧ w = .bytes cs ∧ held u bs cs) ∨
      ((∀ u, t = .unmanaged u → v = w) ∧ Agree S plain held t v w) := by
  by_cases hstruct : ∃ u bs cs, t = .unmanaged u ∧ v = .bytes bs ∧ w = .bytes cs
  · obtain ⟨u, bs, cs, rfl, rfl, rfl⟩ := hstruct
    rw [Agree] at h
    exact .inl ⟨u, bs, cs, rfl, rfl, rfl, h⟩
  · have hother : ∀ u bs cs, t = .unmanaged u → v = .bytes bs → w = .bytes cs → False :=
      fun u bs cs ht hv hw => hstruct ⟨u, bs, cs, ht, hv, hw⟩
    rw [Agree] at h
    · refine .inr ⟨?_, h⟩
      rintro u rfl
      rw [Agree] at h
      · exact h
      all_goals simp
      rintro _ bs cs rfl hv hw
      exact hother u bs cs rfl hv hw
    · exact hother

theorem optionalSerialize_congr {payload : WriteM Unit}
    (h : wireNullEncoding t = .nullableValue → v = w) :
    Writer.optionalSerialize t (some v) payload = Writer.optionalSerialize t (some w) payload := by
  unfold Writer.optionalSerialize
  cases hk : wireNullEncoding t with
  | nullableValue => rw [h hk]
  | _ => rfl

/-- Values with the same members, and the same memory behind each `std::optional`, are
written by the same program. The induction is on the first value. -/
theorem Agree.write_eq (v : Val) : ∀ (t : Ty) (w : Val),
    Agree S SameMembers (fun _ => Eq) t v w → Writer.write S t v = Writer.write S t w := by
  induction v with
  | bytes bs =>
      intro t w h
      cases t with
      | unmanaged u =>
          cases w with
          | bytes cs =>
              rw [Agree] at h
              rw [Writer.write, Writer.write, h.unmanagedSerialize_eq]
          | _ => simp [Agree] at h
      | _ => rw [(agree_leaf rfl).mp h]
  | pair x y hx hy =>
      intro t w h
      cases t with
      | pair a b =>
          cases w with
          | pair x' y' =>
              rw [Agree] at h
              rw [Writer.write, Writer.write, hx a x' h.1, hy b y' h.2]
          | _ => simp [Agree] at h
      | _ => rw [(agree_leaf rfl).mp h]
  | some v ih =>
      intro t w h
      cases t with
      | optional t =>
          cases w with
          | some w =>
              rw [Writer.write, Writer.write]
              rcases h.of_some with ⟨u, bs, cs, rfl, rfl, rfl, rfl⟩ | ⟨hstruct, h⟩
              · rfl
              rw [ih t w h]
              refine optionalSerialize_congr fun hk => ?_
              cases t with
              | scalar s => exact h.eq_of_scalar
              | unmanaged u => exact hstruct u rfl
              | _ => simp [wireNullEncoding] at hk
          | _ => simp [Agree] at h
      | pointer p t =>
          cases w with
          | some w =>
              rw [Agree] at h
              rw [Writer.write, Writer.write, ih t w h]
          | _ => simp [Agree] at h
      | _ => rw [(agree_leaf rfl).mp h]
  | alt i v ih =>
      intro t w h
      cases t with
      | variant tags ts =>
          cases w with
          | alt j w =>
              rw [Agree] at h
              obtain ⟨rfl, h⟩ := h
              rw [Writer.write, Writer.write, ih _ w h]
          | _ => simp [Agree] at h
      | _ => rw [(agree_leaf rfl).mp h]
  | seq vs ih =>
      intro t w h
      obtain ⟨ws, rfl⟩ := h.seq_right
      have heach : ∀ {t : Ty}, AgreeEach S SameMembers (fun _ => Eq) t vs ws →
          Writer.elementWrites S t vs = Writer.elementWrites S t ws := fun h =>
        elementWrites_eq_of_agree h fun v hv w hw => ih v hv _ w hw
      have hmembers : ∀ {ts : List Ty}, AgreeMembers S SameMembers (fun _ => Eq) ts vs ws →
          Writer.memberWrites S ts vs = Writer.memberWrites S ts ws := fun h =>
        memberWrites_eq_of_agree h fun v hv t w hw => ih v hv t w hw
      cases t with
      | vector t =>
          rw [Agree] at h
          rw [Writer.write, Writer.write, writeCollection_eq_of_agree h (heach h)]
      | sequence k t =>
          rw [Agree] at h
          rw [Writer.write, Writer.write, heach h]
      | array n t =>
          rw [Agree] at h
          rw [Writer.write, Writer.write, writeCollectionSpan_eq_of_agree h (heach h)]
      | set o t =>
          rw [Agree] at h
          rw [Writer.write, Writer.write, heach h]
      | map o k t =>
          rw [Agree] at h
          rw [Writer.write, Writer.write, heach h]
      | tuple ts =>
          rw [Agree] at h
          rw [Writer.write, Writer.write, hmembers h]
      | object i =>
          rw [Agree] at h
          rw [Writer.write, Writer.write, hmembers h]
      | _ => rw [(agree_leaf rfl).mp h]
  | _ =>
      intro t w h
      rw [(agree_leaf (by cases t <;> rfl)).mp h]

end Enough

/-! ## Needed: what the bytes determine -/

section Needed

variable {S : Schema} {t : Ty} {v w : Val}

/-- Pieces of known lengths can be told apart in their concatenation. -/
theorem eq_of_flatten_eq {α : Type} {xss yss : List (List α)}
    (hlen : List.Forall₂ (fun xs ys => xs.length = ys.length) xss yss)
    (h : xss.flatten = yss.flatten) : xss = yss := by
  induction hlen with
  | nil => rfl
  | cons hhead _ ih =>
      rw [List.flatten_cons, List.flatten_cons] at h
      obtain ⟨hxs, hrest⟩ := List.append_inj h hhead
      rw [hxs, ih hrest]

/-- Two values with the same members: their encodings are as long, and when they are
equal, so is the memory behind every `std::optional`. -/
def Determined (S : Schema) (t : Ty) (v w : Val) : Prop :=
  (encode S t v).length = (encode S t w).length ∧
    (encode S t v = encode S t w → Agree S SameMembers (fun _ => Eq) t v w)

theorem determined_each : ∀ {vs ws : List Val}, EncodableEach S t vs → EncodableEach S t ws →
    AgreeEach S SameMembers SameMembers t vs ws →
    (∀ v ∈ vs, ∀ w, Encodable S t v → Encodable S t w → Agree S SameMembers SameMembers t v w →
      Determined S t v w) →
    List.Forall₂ (fun xs ys => xs.length = ys.length) (encodeEach S t vs) (encodeEach S t ws) ∧
      (encodeEach S t vs = encodeEach S t ws →
        AgreeEach S SameMembers (fun _ => Eq) t vs ws)
  | [], [], _, _, _, _ => by simp [encodeEach, AgreeEach]
  | [], w :: ws, _, _, h, _ => by simp [AgreeEach] at h
  | v :: vs, [], _, _, h, _ => by simp [AgreeEach] at h
  | v :: vs, w :: ws, hv, hw, h, hdet => by
      rw [EncodableEach] at hv hw
      rw [AgreeEach] at h
      obtain ⟨hhead, hrest⟩ := List.forall_mem_cons.mp hdet
      obtain ⟨hlen, hagree⟩ := hhead w hv.1 hw.1 h.1
      obtain ⟨hlens, hagrees⟩ := determined_each hv.2 hw.2 h.2 hrest
      rw [encodeEach, encodeEach, AgreeEach]
      refine ⟨.cons hlen hlens, fun heq => ?_⟩
      obtain ⟨heq, heqs⟩ := List.cons_eq_cons.mp heq
      exact ⟨hagree heq, hagrees heqs⟩

theorem determined_members : ∀ {ts : List Ty} {vs ws : List Val}, EncodableMembers S ts vs →
    EncodableMembers S ts ws → AgreeMembers S SameMembers SameMembers ts vs ws →
    (∀ v ∈ vs, ∀ t w, Encodable S t v → Encodable S t w → Agree S SameMembers SameMembers t v w →
      Determined S t v w) →
    List.Forall₂ (fun xs ys => xs.length = ys.length) (encodeMembers S ts vs)
        (encodeMembers S ts ws) ∧
      (encodeMembers S ts vs = encodeMembers S ts ws →
        AgreeMembers S SameMembers (fun _ => Eq) ts vs ws)
  | [], [], [], _, _, _, _ => by simp [encodeMembers, AgreeMembers]
  | t :: ts, v :: vs, w :: ws, hv, hw, h, hdet => by
      rw [EncodableMembers] at hv hw
      rw [AgreeMembers] at h
      obtain ⟨hhead, hrest⟩ := List.forall_mem_cons.mp hdet
      obtain ⟨hlen, hagree⟩ := hhead t w hv.1 hw.1 h.1
      obtain ⟨hlens, hagrees⟩ := determined_members hv.2 hw.2 h.2 hrest
      rw [encodeMembers, encodeMembers, AgreeMembers]
      refine ⟨.cons hlen hlens, fun heq => ?_⟩
      obtain ⟨heq, heqs⟩ := List.cons_eq_cons.mp heq
      exact ⟨hagree heq, hagrees heqs⟩

theorem forall₂_length {xss yss : List (List UInt8)}
    (h : List.Forall₂ (fun xs ys => xs.length = ys.length) xss yss) :
    xss.length = yss.length ∧ xss.map List.length = yss.map List.length ∧
      xss.flatten.length = yss.flatten.length := by
  induction h with
  | nil => exact ⟨rfl, rfl, rfl⟩
  | cons hhead _ ih =>
      obtain ⟨hlen, hmap, hflatten⟩ := ih
      refine ⟨by simp [hlen], by simp [hhead, hmap], ?_⟩
      rw [List.flatten_cons, List.flatten_cons, List.length_append, List.length_append, hhead,
        hflatten]

theorem encodeCounted_inj {xss yss : List (List UInt8)}
    (h : List.Forall₂ (fun xs ys => xs.length = ys.length) xss yss) :
    (encodeCounted xss).length = (encodeCounted yss).length ∧
      (encodeCounted xss = encodeCounted yss → xss = yss) := by
  obtain ⟨hlen, -, hflatten⟩ := forall₂_length h
  unfold encodeCounted
  rw [hlen, List.length_append, List.length_append, hflatten]
  exact ⟨rfl, fun heq => eq_of_flatten_eq h (List.append_cancel_left heq)⟩

theorem encodeVersionTolerant_inj {xss yss : List (List UInt8)}
    (h : List.Forall₂ (fun xs ys => xs.length = ys.length) xss yss) :
    (encodeVersionTolerant xss).length = (encodeVersionTolerant yss).length ∧
      (encodeVersionTolerant xss = encodeVersionTolerant yss → xss = yss) := by
  obtain ⟨hlen, hmap, hflatten⟩ := forall₂_length h
  have htable : (xss.flatMap fun bs => encodeVarInt bs.length) =
      yss.flatMap fun bs => encodeVarInt bs.length := by
    have := congrArg (List.flatMap encodeVarInt) hmap
    rwa [List.flatMap_map, List.flatMap_map] at this
  unfold encodeVersionTolerant
  rw [hlen, htable]
  refine ⟨by simp [hflatten], fun heq => eq_of_flatten_eq h ?_⟩
  exact List.append_cancel_left (List.cons_eq_cons.mp heq).2

/-- `WriteNullable` sends the memory of a struct. -/
theorem nullableBuffer_inj {align size : Nat} (ha : 0 < align) {bs cs : List UInt8}
    (hbs : bs.length = size) (hcs : cs.length = size) :
    (Writer.nullableBuffer align size (some bs)).length =
        (Writer.nullableBuffer align size (some cs)).length ∧
      (Writer.nullableBuffer align size (some bs) = Writer.nullableBuffer align size (some cs) →
        bs = cs) := by
  rw [nullableBuffer_some ha hbs, nullableBuffer_some ha hcs]
  refine ⟨by simp [hbs, hcs], fun heq => ?_⟩
  have hrest := List.append_cancel_left (List.cons_eq_cons.mp heq).2
  exact List.append_cancel_right hrest

theorem Agree.some_intro (ht : ∀ u, t ≠ .unmanaged u)
    (h : Agree S SameMembers (fun _ => Eq) t v w) :
    Agree S SameMembers (fun _ => Eq) (.optional t) (.some v) (.some w) := by
  rw [Agree]
  · exact h
  · intro u bs cs hu
    exact absurd hu (ht u)

theorem determined_of_eq (h : v = w) (hagree : Agree S SameMembers (fun _ => Eq) t v w) :
    Determined S t v w := ⟨by rw [h], fun _ => hagree⟩

/-- Where nothing is compared but the values themselves. -/
theorem determined_leaf (hleaf : v.composite t = false)
    (h : Agree S SameMembers SameMembers t v w) : Determined S t v w :=
  determined_of_eq ((agree_leaf hleaf).mp h) ((agree_leaf hleaf).mpr ((agree_leaf hleaf).mp h))

/-- The same of a `std::optional` that holds something. -/
theorem determined_some (hv : Encodable S t v) (hw : Encodable S t w)
    (h : Agree S SameMembers SameMembers (.optional t) (.some v) (.some w))
    (ih : Agree S SameMembers SameMembers t v w → Determined S t v w) :
    Determined S (.optional t) (.some v) (.some w) := by
  rcases h.of_some with ⟨u, bs, cs, rfl, rfl, rfl, -⟩ | ⟨hstruct, h⟩
  · rw [Encodable] at hv hw
    obtain ⟨hlen, hinj⟩ := nullableBuffer_inj u.align_pos hv hw
    refine ⟨hlen, fun heq => ?_⟩
    rw [Agree]
    exact hinj heq
  · cases t with
    | scalar s =>
        have heq := h.eq_of_scalar
        exact determined_of_eq (congrArg Val.some heq)
          (Agree.some_intro (by simp) ((agree_leaf rfl).mpr heq))
    | unmanaged u =>
        obtain rfl := hstruct u rfl
        cases v with
        | bytes bs =>
            refine determined_of_eq rfl ?_
            rw [Agree]
        | _ => simp [Encodable] at hv
    | _ =>
        obtain ⟨hlen, hagree⟩ := ih h
        exact ⟨hlen, fun heq => Agree.some_intro (by simp) (hagree heq)⟩

/-- The induction is on the first value, with the same cases as the encoding. -/
theorem Agree.determined (v : Val) : ∀ (t : Ty) (w : Val), Encodable S t v → Encodable S t w →
    Agree S SameMembers SameMembers t v w → Determined S t v w := by
  induction v with
  | bytes bs =>
      intro t w hv hw h
      cases t with
      | unmanaged u =>
          cases w with
          | bytes cs =>
              rw [Encodable] at hv hw
              rw [Agree] at h
              refine ⟨?_, fun _ => by rw [Agree]; exact h⟩
              rw [encode, encode, length_encodeUnmanaged hv, length_encodeUnmanaged hw]
          | _ => simp [Agree] at h
      | _ => exact determined_leaf rfl h
  | pair x y hx hy =>
      intro t w hv hw h
      cases t with
      | pair a b =>
          cases w with
          | pair x' y' =>
              rw [Encodable] at hv hw
              rw [Agree] at h
              obtain ⟨hlen, hagree⟩ := hx a x' hv.1 hw.1 h.1
              obtain ⟨hlen', hagree'⟩ := hy b y' hv.2 hw.2 h.2
              unfold Determined
              rw [encode, encode, Agree, List.length_append, List.length_append, hlen, hlen']
              refine ⟨rfl, fun heq => ?_⟩
              obtain ⟨heq, heq'⟩ := List.append_inj heq hlen
              exact ⟨hagree heq, hagree' heq'⟩
          | _ => simp [Agree] at h
      | _ => exact determined_leaf rfl h
  | some v ih =>
      intro t w hv hw h
      cases t with
      | optional t =>
          cases w with
          | some w =>
              rw [Encodable] at hv hw
              exact determined_some hv hw h (ih t w hv hw)
          | _ => simp [Agree] at h
      | pointer p t =>
          cases w with
          | some w =>
              rw [Encodable] at hv hw
              rw [Agree] at h
              unfold Determined
              rw [encode, encode, Agree]
              exact ih t w hv hw h
          | _ => simp [Agree] at h
      | _ => exact determined_leaf rfl h
  | alt i v ih =>
      intro t w hv hw h
      cases t with
      | variant tags ts =>
          cases w with
          | alt j w =>
              rw [Encodable] at hv hw
              rw [Agree] at h
              obtain ⟨rfl, h⟩ := h
              obtain ⟨hlen, hagree⟩ := ih _ w hv.2 hw.2 h
              unfold Determined
              rw [encode, encode, Agree, List.length_append, List.length_append, hlen]
              exact ⟨rfl, fun heq => ⟨rfl, hagree (List.append_cancel_left heq)⟩⟩
          | _ => simp [Agree] at h
      | _ => exact determined_leaf rfl h
  | seq vs ih =>
      intro t w hv hw h
      obtain ⟨ws, rfl⟩ := h.seq_right
      have heach : ∀ {t : Ty}, EncodableEach S t vs → EncodableEach S t ws →
          AgreeEach S SameMembers SameMembers t vs ws →
          (encodeCounted (encodeEach S t vs)).length = (encodeCounted (encodeEach S t ws)).length ∧
            (encodeCounted (encodeEach S t vs) = encodeCounted (encodeEach S t ws) →
              AgreeEach S SameMembers (fun _ => Eq) t vs ws) := by
        intro t hv hw h
        obtain ⟨hlens, hagree⟩ := determined_each hv hw h fun v hv w => ih v hv t w
        obtain ⟨hlen, hinj⟩ := encodeCounted_inj hlens
        exact ⟨hlen, fun heq => hagree (hinj heq)⟩
      have hparts : ∀ v ∈ vs, ∀ t w, Encodable S t v → Encodable S t w →
          Agree S SameMembers SameMembers t v w → Determined S t v w := fun v hv t w => ih v hv t w
      cases t with
      | vector t =>
          rw [Encodable] at hv hw
          rw [Agree] at h
          unfold Determined
          rw [encode, encode, Agree]
          exact heach hv.2 hw.2 h
      | sequence k t =>
          rw [Encodable] at hv hw
          rw [Agree] at h
          unfold Determined
          rw [encode, encode, Agree]
          exact heach hv.2 hw.2 h
      | array n t =>
          rw [Encodable] at hv hw
          rw [Agree] at h
          unfold Determined
          rw [encode, encode, Agree]
          exact heach hv.2.1 hw.2.1 h
      | set o t =>
          rw [Encodable] at hv hw
          rw [Agree] at h
          unfold Determined
          rw [encode, encode, Agree]
          exact heach hv.2.1 hw.2.1 h
      | map o k t =>
          rw [Encodable] at hv hw
          rw [Agree] at h
          unfold Determined
          rw [encode, encode, Agree]
          exact heach hv.2.1 hw.2.1 h
      | tuple ts =>
          rw [Encodable] at hv hw
          rw [Agree] at h
          obtain ⟨hlens, hagree⟩ := determined_members hv.2 hw.2 h hparts
          unfold Determined
          rw [encode, encode, Agree, List.length_cons, List.length_cons,
            (forall₂_length hlens).2.2]
          refine ⟨rfl, fun heq => hagree (eq_of_flatten_eq hlens ?_)⟩
          exact (List.cons_eq_cons.mp heq).2
      | object i =>
          rw [Encodable] at hv hw
          rw [Agree] at h
          obtain ⟨hlens, hagree⟩ := determined_members hv.1 hw.1 h hparts
          unfold Determined
          rw [encode, encode, Agree]
          cases hkind : (S.decl i).kind with
          | define =>
              refine ⟨by simp [(forall₂_length hlens).2.2], fun heq => hagree ?_⟩
              exact eq_of_flatten_eq hlens (List.cons_eq_cons.mp heq).2
          | defineEmpty =>
              have hempty := (S.decl i).empty hkind
              rw [hempty] at hv hw ⊢
              cases vs with
              | nil =>
                  cases ws with
                  | nil => exact ⟨rfl, fun _ => by simp [AgreeMembers]⟩
                  | cons w ws => simp [EncodableMembers] at hw
              | cons v vs => simp [EncodableMembers] at hv
          | versionTolerant =>
              obtain ⟨hlen, hinj⟩ := encodeVersionTolerant_inj hlens
              exact ⟨hlen, fun heq => hagree (hinj heq)⟩
      | _ => exact determined_leaf rfl h
  | _ =>
      intro t w hv hw h
      exact determined_leaf (by cases t <;> rfl) h

end Needed

/-! ## The theorem -/

/-- Two values with the same members. If the structs held directly by a `std::optional`
agree on every byte, the two are written by the same program, on every writer and in
every build. And where both have an encoding, `Serialize` gives the same bytes exactly
when these structs agree on every byte. -/
theorem same_bytes_iff {S : Schema} {t : Ty} {v w : Val}
    (h : Agree S SameMembers SameMembers t v w) :
    (Agree S SameMembers (fun _ => Eq) t v w → Writer.write S t v = Writer.write S t w) ∧
    (∀ B : Build, B.Supports S t → Encodable S t v → Encodable S t w →
      (serialize S B t v = serialize S B t w ↔ Agree S SameMembers (fun _ => Eq) t v w)) := by
  refine ⟨Agree.write_eq v t w, fun B hB hv hw => ⟨fun heq => ?_, fun hagree => ?_⟩⟩
  · rw [serialize_eq_encode hB hv, serialize_eq_encode hB hw] at heq
    exact (Agree.determined v t w hv hw h).2 (Out.ret.inj heq)
  · unfold serialize
    rw [Agree.write_eq v t w hagree]

/-- `struct { uint8_t id; uint32_t count; }`, scrubbed: three bytes of padding behind
`id`. -/
def padded : Unmanaged :=
  ⟨8, 4, some [(0, 1), (4, 4)], List.replicate 8 0, by decide, by decide, rfl⟩

/-- A vector of one such struct. -/
theorem same_bytes_padded :
    serialize .plain ⟨true, .little, .w64, 0⟩ (.vector (.unmanaged padded))
        (.seq [.bytes [1, 0, 0, 0, 2, 0, 0, 0]]) =
      serialize .plain ⟨true, .little, .w64, 0⟩ (.vector (.unmanaged padded))
        (.seq [.bytes [1, 9, 9, 9, 2, 0, 0, 0]]) := by
  have hstruct : SameMembers padded [1, 0, 0, 0, 2, 0, 0, 0] [1, 9, 9, 9, 2, 0, 0, 0] := by
    refine ⟨rfl, rfl, fun i hi => ?_⟩
    have hrange : i = 0 ∨ 4 ≤ i ∧ i < 8 := by
      obtain ⟨m, hm, hi⟩ := hi
      rcases List.mem_cons.mp hm with rfl | hm
      · exact .inl (by omega)
      · rw [List.mem_singleton.mp hm] at hi
        exact .inr hi
    rcases hrange with rfl | ⟨hlo, hhi⟩
    · rfl
    · obtain ⟨k, rfl⟩ : ∃ k, i = k + 4 := ⟨i - 4, by omega⟩
      rfl
  have hagree : ∀ held, Agree .plain SameMembers held (.vector (.unmanaged padded))
      (.seq [.bytes [1, 0, 0, 0, 2, 0, 0, 0]]) (.seq [.bytes [1, 9, 9, 9, 2, 0, 0, 0]]) := by
    intro held
    simp [Agree, AgreeEach, hstruct]
  refine ((same_bytes_iff (hagree SameMembers)).2 _ (.inl rfl) ?_ ?_).mpr (hagree _)
  · simp [Encodable, EncodableEach, padded, maxLength]
  · simp [Encodable, EncodableEach, padded, maxLength]

/-- The same two structs behind a `std::optional`: the padding is on the wire. -/
theorem optional_leaks_padding :
    serialize .plain ⟨true, .little, .w64, 0⟩ (.optional (.unmanaged padded))
        (.some (.bytes [1, 0, 0, 0, 2, 0, 0, 0])) =
      .ret [1, 0, 0, 0, 1, 0, 0, 0, 2, 0, 0, 0] ∧
    serialize .plain ⟨true, .little, .w64, 0⟩ (.optional (.unmanaged padded))
        (.some (.bytes [1, 9, 9, 9, 2, 0, 0, 0])) =
      .ret [1, 0, 0, 0, 1, 9, 9, 9, 2, 0, 0, 0] := by
  refine ⟨rfl, rfl⟩

end MemoryPack
