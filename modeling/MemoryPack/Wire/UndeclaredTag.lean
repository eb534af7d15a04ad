import MemoryPack.Reader.Landing
import MemoryPack.Wire.Containment

/-!
# Union headers that no alternative declares

A reserved header fails where it is read. A tag that no alternative declares makes the
formatter skip to the end of the input instead: it is up to whatever is read next to
fail there. `Comes` is the place of a union inside a decode, with what is still to be
read after it (`Frame`): if that is nothing, the decode returns normally.
-/

namespace MemoryPack

open Effect

/-! ## Places -/

/-- What the enclosing formatters still do after a value: read `left` more values, or, for
a member of a `VersionTolerant` object, move the cursor back to where the table says. -/
inductive Frame where
  | reads (left : Nat)
  | table
deriving DecidableEq, Repr

/-- Nothing more is read, up to the end of the decode or of the enclosing member. The
innermost frame comes first. -/
def silent : List Frame → Bool
  | [] => true
  | .reads left :: fs => left = 0 && silent fs
  | .table :: _ => true

/-- `Read<T>` of a value gets to `r₁` and then reads the values `ps`, each a type and the
target it is read into, one after the other. User objects below have room for `room`
nested ones. -/
inductive Opens (S : Schema) (B : Build) : Nat → Ty → Val → MemoryPackReader →
    Nat → List (Ty × Val) → MemoryPackReader → Prop where
  | vector {room t v r len r₁} : (∀ s, t ≠ .scalar s) →
      Succeeds B (Reader.readCollectionLength (Reader.minEncodedSize t)) r len r₁ → 0 < len →
      Opens S B room (.vector t) v r room (List.replicate len.toNat (t, S.init t)) r₁
  | sequence {room k t v r len r₁} :
      Succeeds B (Reader.readCollectionLength (Reader.elementMin t)) r len r₁ → 0 < len →
      Opens S B room (.sequence k t) v r room (List.replicate len.toNat (t, S.init t)) r₁
  | array {room n t v r len r₁} : (∀ s, t ≠ .scalar s) →
      Succeeds B (Reader.readCollectionLength 1) r len r₁ → 0 < len →
      Opens S B room (.array n t) v r room (List.replicate len.toNat (t, S.init t)) r₁
  | set {room o t v r len r₁} :
      Succeeds B (Reader.readCollectionLength (Reader.elementMin t)) r len r₁ → 0 < len →
      Opens S B room (.set o t) v r room (List.replicate len.toNat (t, S.init t)) r₁
  -- an entry is its key then its value, which is how a pair is read
  | map {room o k t v r len r₁} :
      Succeeds B (Reader.readCollectionLength (Reader.elementMin k + Reader.elementMin t))
        r len r₁ → 0 < len →
      Opens S B room (.map o k t) v r room
        (List.replicate len.toNat (.pair k t, .pair (S.init k) (S.init t))) r₁
  | pair {room a b v r} : Opens S B room (.pair a b) v r room [(a, v.fst), (b, v.snd)] r
  | tuple {room ts v r header r₁} : Succeeds B Reader.readObjectHeader r header r₁ →
      header.isNull = false →
      Opens S B room (.tuple ts) v r room
        ((ts.take header.count.toNat).map fun t => (t, S.init t)) r₁
  | optionalObject {room t v r l} : wireNullEncoding t = .object →
      Reader.peekIsNull B r = ⟨.ret false, r, l⟩ →
      Opens S B room (.optional t) v r room [(t, S.init t)] r
  | optionalCollection {room t v r l} : wireNullEncoding t = .collection →
      Reader.nullCollectionTest B r = ⟨.ret false, r, l⟩ →
      Opens S B room (.optional t) v r room [(t, S.init t)] r
  | pointer {room p t v r l} : Reader.peekIsNull B r = ⟨.ret false, r, l⟩ →
      Opens S B room (.pointer p t) v r room [(t, S.init t)] r
  | alternative {room tags ts v r tag t r₁} :
      Succeeds B Reader.readUnionHeader r (some tag) r₁ → alternativeOf tag tags ts = some t →
      Opens S B room (.variant tags ts) v r room [(t, S.init t)] r₁
  | define {room i v r header r₁} : (S.decl i).kind = .define →
      Succeeds B Reader.readObjectHeader r header r₁ → header.isNull = false →
      ¬ r₁.depth + 1 > r₁.options.maxDepth →
      Opens S B (room + 1) (.object i) v r room
        ((memberTargets S (S.decl i).members v.items).take header.count.toNat) r₁.entered

/-- The `ReadMember` calls of a `Deserialize` over `VersionTolerantReader`, up to the call
for the first of the members left. -/
inductive MembersRead (S : Schema) (B : Build) (read : Ty → Val → ReadM Val) :
    List Ty → List Val → VersionTolerantReader → MemoryPackReader →
    List Ty → List Val → VersionTolerantReader → MemoryPackReader → Prop where
  | start {ts vs vt r} : MembersRead S B read ts vs vt r ts vs vt r
  | next {t ts vs vt r sent w vt₁ r₁ ts' vs' vt' r'} :
      Succeeds B (vt.readMember (read t) (vs.headD (S.init t))) r (sent, w, vt₁) r₁ →
      MembersRead S B read ts vs.tail vt₁ r₁ ts' vs' vt' r' →
      MembersRead S B read (t :: ts) vs vt r ts' vs' vt' r'

/-- `Read<T>` of a value comes, without a failure, to the union with these tags and
alternatives, whose header is at the cursor of `r'`; `stack` is still to be done after
it. -/
inductive Comes (S : Schema) (B : Build) (tags : List UInt16) (ts : List Ty) :
    Nat → Ty → Val → MemoryPackReader → List Frame → MemoryPackReader → Prop where
  | here {room v r} : Comes S B tags ts room (.variant tags ts) v r [] r
  | part {room t v r room' before p after r₁ r₂ stack r'} :
      Opens S B room t v r room' (before ++ p :: after) r₁ →
      ReadsAll B (Reader.readTy S (Reader.readObject S room')) before r₁ r₂ →
      Comes S B tags ts room' p.1 p.2 r₂ stack r' →
      Comes S B tags ts room t v r (stack ++ [.reads after.length]) r'
  | member {room i v r vt r₁ t us vs vt' r₂ stack r'} : (S.decl i).kind = .versionTolerant →
      Succeeds B VersionTolerantReader.construct r vt r₁ → vt.isNull = false →
      MembersRead S B (Reader.readTy S (Reader.readObject S room)) (S.decl i).members v.items
        vt r₁ (t :: us) vs vt' r₂ →
      ¬ (vt'.isNull = true ∨ vt'.index ≥ vt'.count) → vt'.next ≤ r₂.size →
      Comes S B tags ts room t (vs.headD (S.init t)) { r₂ with pos := vt'.next } stack r' →
      Comes S B tags ts (room + 1) (.object i) v r (stack ++ [.table]) r'

section Opens

variable {S : Schema} {B : Build} {room room' : Nat} {t : Ty} {v : Val} {r r₁ : MemoryPackReader}
  {ps : List (Ty × Val)} {q : Nat}

/-- What follows the header of a union. -/
def unionBody (S : Schema) (named : Nat → Val → ReadM Val) (tags : List UInt16) (ts : List Ty)
    (v : Val) : Option UInt16 → ReadM Val
  | none => return S.init (.variant tags ts)
  | some tag => do
      match ← Reader.readAlternative S named tag 0 tags ts with
      | some w => return w
      | none => Reader.undeclaredUnion tag v

theorem readTy_variant {named : Nat → Val → ReadM Val} (tags : List UInt16) (ts : List Ty)
    (v : Val) : Reader.readTy S named (.variant tags ts) v =
      Reader.readUnionHeader >>= unionBody S named tags ts v := by
  rw [Reader.readTy]
  congr 1

theorem sticky_unionBody (tags : List UInt16) (ts : List Ty) (v : Val) :
    ∀ o, Sticky (unionBody S (Reader.readObject S room) tags ts v o)
  | none => .pure _
  | some tag => by
      have hrules := Sticky.basicRules.readRules
      refine (hrules.readAlternative (fun u _ => Sticky.readTy S room u (S.init u)) tag 0 tags).bind
        fun o => ?_
      cases o with
      | none => exact hrules.undeclaredUnion tag v
      | some w => exact .pure w

theorem unionBody_declared {named : Nat → Val → ReadM Val} {tag : UInt16} {tags : List UInt16}
    {ts : List Ty} (h : alternativeOf tag tags ts = some t) (v : Val) :
    unionBody S named tags ts v (some tag) = do
      return .alt (tags.idxOf tag) (← Reader.readTy S named t (S.init t)) := by
  rw [unionBody, readAlternative_eq, h, Nat.zero_add]
  exact Prog.bind_assoc _ _ _

theorem unionBody_undeclared {named : Nat → Val → ReadM Val} {tag : UInt16} {tags : List UInt16}
    {ts : List Ty} (h : alternativeOf tag tags ts = none) (v : Val) :
    unionBody S named tags ts v (some tag) = Reader.undeclaredUnion tag v := by
  rw [unionBody, readAlternative_eq, h]
  rfl

/-- A value lands where its parts do. -/
theorem Opens.lands (h : Opens S B room t v r room' ps r₁) :
    Lands B (Reader.readTy S (Reader.readObject S room) t v) r q ↔
      AllLand B (Reader.readTy S (Reader.readObject S room')) ps r₁ q := by
  cases h with
  | vector ht hlen hpos =>
      rename_i t len
      have hgeneric : Reader.readCollection t (Reader.readTy S (Reader.readObject S room) t
          (S.init t)) = Reader.readElements (Reader.minEncodedSize t) true true
            (Reader.readTy S (Reader.readObject S room) t (S.init t)) Reader.pushBack [] := by
        cases t with
        | scalar s => exact absurd rfl (ht s)
        | _ => rfl
      rw [Reader.readTy, lands_map, hgeneric, readElements_lands hlen hpos]
  | sequence hlen hpos =>
      rw [Reader.readTy, lands_map, Reader.sequenceDeserialize, readElements_lands hlen hpos]
  | array ht hlen hpos =>
      rename_i n t len
      have hgeneric : Reader.arrayDeserialize S n t (Reader.readTy S (Reader.readObject S room) t
          (S.init t)) = (do return (← Reader.readElements 1 false false
            (Reader.readTy S (Reader.readObject S room) t (S.init t)) (Reader.storeAt n)
            (0, List.replicate n (S.init t))).2) := by
        cases t with
        | scalar s => exact absurd rfl (ht s)
        | _ => rfl
      rw [Reader.readTy, lands_map, hgeneric, lands_map, readElements_lands hlen hpos]
  | set hlen hpos =>
      rw [Reader.readTy, lands_map, Reader.setDeserialize, readElements_lands hlen hpos]
  | map hlen hpos =>
      rename_i o k t len
      have hentry : Reader.readTy S (Reader.readObject S room) (.pair k t)
          (.pair (S.init k) (S.init t)) = (do
            let x ← Reader.readTy S (Reader.readObject S room) k (S.init k)
            let y ← Reader.readTy S (Reader.readObject S room) t (S.init t)
            return .pair x y) := by
        rw [Reader.readTy]
        rfl
      rw [Reader.readTy, lands_map, Reader.mapDeserialize, ← hentry, readElements_lands hlen hpos]
  | pair =>
      rename_i a b
      have hsecond : ∀ x, Sticky (do
          let y ← Reader.readTy S (Reader.readObject S room) b v.snd
          return Val.pair x y : ReadM Val) := fun x =>
        (Sticky.readTy S room b v.snd).bind fun y => .pure _
      rw [Reader.readTy, lands_bind hsecond, allLand_cons]
      refine exists_congr fun x => exists_congr fun r₁ => and_congr_right fun _ => ?_
      rw [lands_map, allLand_one]
  | tuple hheader hnull =>
      rename_i ts header
      have hrest : ∀ header : ObjectHeader, Sticky (do
          if header.isNull then return Val.seq (S.inits ts)
          return Val.seq (← Reader.readItems S (Reader.readObject S room) header.count.toNat 0 ts) :
            ReadM Val) := fun header =>
        Prog.Closed.ite (fun _ => .pure _) fun _ => (sticky_readItems _ ts 0).bind fun _ => .pure _
      rw [Reader.readTy, lands_andThen hrest hheader, hnull, if_neg (by decide), lands_map,
        readItems_lands, Nat.sub_zero]
  | optionalObject hnull hpeek =>
      rw [Reader.readTy, optionalDeserialize_object hnull, nullObject_lands hpeek, allLand_one]
  | optionalCollection hnull htest =>
      rw [Reader.readTy, optionalDeserialize_collection hnull, nullCollection_lands htest,
        allLand_one]
  | pointer hpeek => rw [Reader.readTy, nullObject_lands hpeek, allLand_one]
  | alternative hheader halt =>
      rename_i tags ts tag t
      rw [readTy_variant, lands_andThen (sticky_unionBody tags ts v) hheader,
        unionBody_declared halt, lands_map, allLand_one]
  | define hkind hheader hnull hdepth =>
      rename_i i header r₁
      have hrest : ∀ header : ObjectHeader, Sticky (do
          if header.isNull then return S.init (.object i)
          Reader.objectBody v (Reader.readMembers S (Reader.readTy S (Reader.readObject S room'))
            header.count.toNat 0 (S.decl i).members v.items) : ReadM Val) := fun header =>
        Prog.Closed.ite (fun _ => .pure _) fun _ => .objectBody
          (Sticky.basicRules.readMembers _ _ 0 v.items fun t _ w => Sticky.readTy S room' t w)
      rw [Reader.readTy, Reader.readObject_define hkind, Reader.defineDeserialize,
        lands_andThen hrest hheader, hnull, if_neg (by decide), objectBody_lands hdepth,
        readMembers_lands, Nat.sub_zero]

/-- Getting to the parts does not change the input. -/
theorem Opens.data (h : Opens S B room t v r room' ps r₁) : r₁.data = r.data := by
  have length := fun min => Sticky.basicRules.readCollectionLength min
  cases h with
  | vector _ hlen _ => exact hlen.data (length _)
  | sequence hlen _ => exact hlen.data (length _)
  | array _ hlen _ => exact hlen.data (length _)
  | set hlen _ => exact hlen.data (length _)
  | map hlen _ => exact hlen.data (length _)
  | pair => rfl
  | tuple hheader _ => exact hheader.data Sticky.basicRules.readRules.readObjectHeader
  | optionalObject => rfl
  | optionalCollection => rfl
  | pointer => rfl
  | alternative hheader _ => exact hheader.data Sticky.basicRules.readRules.readUnionHeader
  | define _ hheader _ _ => exact hheader.data Sticky.basicRules.readRules.readObjectHeader

theorem Opens.error (h : Opens S B room t v r room' ps r₁) (he : r.error = .none) :
    r₁.error = .none := by
  cases h with
  | vector _ hlen _ => exact hlen.2
  | sequence hlen _ => exact hlen.2
  | array _ hlen _ => exact hlen.2
  | set hlen _ => exact hlen.2
  | map hlen _ => exact hlen.2
  | pair => exact he
  | tuple hheader _ => exact hheader.2
  | optionalObject => exact he
  | optionalCollection => exact he
  | pointer => exact he
  | alternative hheader _ => exact hheader.2
  | define _ hheader _ _ => exact hheader.2

end Opens

/-! ## Members of a table -/

section Members

variable {S : Schema} {B : Build} {read : Ty → Val → ReadM Val} {t : Ty} {ts us : List Ty}
  {vs ws : List Val} {vt vt' : VersionTolerantReader} {r r' : MemoryPackReader}

theorem MembersRead.data (hread : ∀ t v, Sticky (read t v))
    (h : MembersRead S B read ts vs vt r us ws vt' r') : r'.data = r.data := by
  induction h with
  | start => rfl
  | next hone _ ih => exact ih.trans (hone.data (Sticky.basicRules.readMember (hread _) _ _))

theorem MembersRead.error (h : MembersRead S B read ts vs vt r us ws vt' r')
    (he : r.error = .none) : r'.error = .none := by
  induction h with
  | start => exact he
  | next hone _ ih => exact ih hone.2

/-- A `ReadMember` that succeeds has read its value from the start of the member. -/
theorem readMember_lands {read : Val → ReadM Val} {out : Val}
    {a : Bool × Val × VersionTolerantReader} (hread : ∀ v, Sticky (read v))
    (hpast : ¬ (vt.isNull = true ∨ vt.index ≥ vt.count)) (hnext : vt.next ≤ r.size)
    (h : Succeeds B (vt.readMember read out) r a r') :
    ∃ q, Lands B (read out) { r with pos := vt.next } q := by
  have he := h.start (Sticky.basicRules.readMember hread vt out)
  have hmember : Succeeds B (VersionTolerantReader.memberTo read vt out
      ((vt.next + vt.lengths.getD vt.index 0) % B.sizeMod)) r a r' := by
    obtain ⟨hret, he'⟩ := h
    rw [Prog.Returns, VersionTolerantReader.readMember_eq hpast] at hret
    exact ⟨hret, he'⟩
  have hseek : Succeeds B (Reader.seek vt.next) r () { r with pos := vt.next } :=
    ⟨Prog.returns_iff.mpr ⟨_, Reader.seek_within hnext⟩, he⟩
  have hend := fun (w : Val) => (Sticky.basicRules.seek
    ((vt.next + vt.lengths.getD vt.index 0) % B.sizeMod)).bind fun _ =>
      Sticky.pure (true, w, ({ vt with index := vt.index + 1,
                                       next := (vt.next + vt.lengths.getD vt.index 0) % B.sizeMod } :
        VersionTolerantReader))
  obtain ⟨hret, he'⟩ := hmember
  obtain ⟨u, r₁, hstart, hret⟩ := Prog.returns_bind.mp hret
  obtain ⟨-, rfl⟩ := hseek.1.unique hstart
  obtain ⟨b, r₂, hb, hret⟩ := Prog.returns_bind.mp hret
  obtain ⟨rfl, rfl⟩ := hb.unique (⟨rfl, rfl⟩ : Prog.Returns Reader.failed B
    { r with pos := vt.next } (MemoryPackReader.failed { r with pos := vt.next })
    { r with pos := vt.next })
  have hfailed : MemoryPackReader.failed { r with pos := vt.next } = false := by
    simp [MemoryPackReader.failed, he]
  rw [hfailed, if_neg (by decide)] at hret
  obtain ⟨w, r₃, hw, hret⟩ := Prog.returns_bind.mp hret
  have he₃ : r₃.error = .none := Succeeds.start (m := _) ⟨hret, he'⟩ (hend w)
  exact ⟨r₃.pos, w, r₃, ⟨hw, he₃⟩, rfl⟩

/-- What follows one `ReadMember` call. -/
theorem sticky_membersRest (hread : ∀ t v, Sticky (read t v)) (ts : List Ty) (vs : List Val)
    (old : Val) (a : Bool × Val × VersionTolerantReader) : Sticky (do
      if !a.1 then Prog.tell (.kept old)
      let b ← VersionTolerantReader.readMembers S read ts vs a.2.2
      return (a.2.1 :: b.1, b.2) : ReadM (List Val × VersionTolerantReader)) := by
  have hrest := (Sticky.basicRules.versionTolerantMembers (S := S) ts vs a.2.2
    fun t _ v => hread t v).bind fun b => Sticky.pure (a.2.1 :: b.1, b.2)
  exact Prog.Closed.ite (fun _ => (Sticky.tell _).bind fun _ => hrest) fun _ => hrest

theorem readMembers_cons (t : Ty) (ts : List Ty) (vs : List Val) (vt : VersionTolerantReader) :
    VersionTolerantReader.readMembers S read (t :: ts) vs vt = (do
      let a ← vt.readMember (read t) (vs.headD (S.init t))
      if !a.1 then Prog.tell (.kept (vs.headD (S.init t)))
      let b ← VersionTolerantReader.readMembers S read ts vs.tail a.2.2
      return (a.2.1 :: b.1, b.2)) := rfl

/-- If all calls succeed, so do those that are left. -/
theorem MembersRead.lands (hread : ∀ t v, Sticky (read t v))
    (h : MembersRead S B read ts vs vt r us ws vt' r') {q : Nat}
    (hall : Lands B (VersionTolerantReader.readMembers S read ts vs vt) r q) :
    ∃ q', Lands B (VersionTolerantReader.readMembers S read us ws vt') r' q' := by
  induction h generalizing q with
  | start => exact ⟨q, hall⟩
  | @next t ts vs vt r sent w vt₁ r₁ us ws vt' r' hone _ ih =>
      rw [readMembers_cons, lands_andThen (sticky_membersRest hread ts vs.tail _) hone] at hall
      have hrest : Lands B (do
          let b ← VersionTolerantReader.readMembers S read ts vs.tail vt₁
          return (w :: b.1, b.2) : ReadM (List Val × VersionTolerantReader)) r₁ q := by
        cases sent with
        | true => exact hall
        | false =>
            have htell : Lands B (Prog.tell (.kept (vs.headD (S.init t))) >>= fun _ => do
                let b ← VersionTolerantReader.readMembers S read ts vs.tail vt₁
                return (w :: b.1, b.2) : ReadM (List Val × VersionTolerantReader)) r₁ q := hall
            rwa [lands_skip (l := [.kept (vs.headD (S.init t))]) rfl] at htell
      obtain ⟨b, r₂, hb, -⟩ := (lands_bind fun _ => Sticky.pure _).mp hrest
      exact ih ⟨b, r₂, hb, rfl⟩

end Members

/-- If a `VersionTolerant` object is read, each member is read from its start. -/
theorem member_lands {S : Schema} {B : Build} {room i : Nat} {v : Val} {r r₁ r₂ : MemoryPackReader}
    {vt vt' : VersionTolerantReader} {t : Ty} {us : List Ty} {vs : List Val} {q : Nat}
    (hkind : (S.decl i).kind = .versionTolerant)
    (hconstruct : Succeeds B VersionTolerantReader.construct r vt r₁) (hnull : vt.isNull = false)
    (hbefore : MembersRead S B (Reader.readTy S (Reader.readObject S room)) (S.decl i).members
      v.items vt r₁ (t :: us) vs vt' r₂)
    (hpast : ¬ (vt'.isNull = true ∨ vt'.index ≥ vt'.count)) (hnext : vt'.next ≤ r₂.size)
    (h : Lands B (Reader.readTy S (Reader.readObject S (room + 1)) (.object i) v) r q) :
    ∃ q', Lands B (Reader.readTy S (Reader.readObject S room) t (vs.headD (S.init t)))
      { r₂ with pos := vt'.next } q' := by
  have hread := fun t v => Sticky.readTy S room t v
  have hfinish : ∀ a : List Val × VersionTolerantReader, Sticky (do
      let _ ← a.2.finish
      return Val.seq a.1 : ReadM Val) := fun a =>
    (Sticky.basicRules.finish a.2).bind fun _ => .pure _
  have hbody : ∀ vt : VersionTolerantReader, Sticky (do
      if vt.isNull then
        Prog.tell (.kept v)
        return v
      let a ← VersionTolerantReader.readMembers S (Reader.readTy S (Reader.readObject S room))
        (S.decl i).members v.items vt
      let _ ← a.2.finish
      return Val.seq a.1 : ReadM Val) := fun vt =>
    Prog.Closed.ite (fun _ => (Sticky.tell _).bind fun _ => .pure _) fun _ =>
      (Sticky.basicRules.versionTolerantMembers (S := S) _ _ vt fun t _ v => hread t v).bind hfinish
  rw [Reader.readTy, Reader.readObject_versionTolerant hkind] at h
  have h' := (lands_andThen hbody hconstruct).mp h
  rw [hnull, if_neg (by decide), lands_bind hfinish] at h'
  obtain ⟨a, r₃, ha, -⟩ := h'
  obtain ⟨q', hleft⟩ := hbefore.lands hread ⟨a, r₃, ha, rfl⟩
  rw [readMembers_cons, lands_bind (sticky_membersRest hread us vs.tail _)] at hleft
  obtain ⟨b, r₄, hb, -⟩ := hleft
  exact readMember_lands (hread t) hpast hnext hb

/-! ## Headers -/

/-- The tag of the union header at the front, in its narrow or its wide form. -/
def tagAt : List UInt8 → Option UInt16
  | [] => none
  | b :: bs =>
      if b < wideTag then some b.toUInt16
      else if b = wideTag ∧ 2 ≤ bs.length then
        some (UInt16.ofNat (LittleEndian.leNat (bs.take 2)))
      else none

/-- The header at the cursor carries a tag that no alternative declares. -/
def UndeclaredAt (tags : List UInt16) (r : MemoryPackReader) : Prop :=
  ∃ tag, tagAt r.rest = some tag ∧ tag ∉ tags

/-- The header at the cursor is one of 251..254. -/
def ReservedAt (r : MemoryPackReader) : Prop :=
  ∃ b bs, r.rest = b :: bs ∧ wideTag < b ∧ b < nullObject

section Headers

variable {S : Schema} {B : Build} {tags : List UInt16} {ts : List Ty} {room : Nat} {v : Val}
  {r : MemoryPackReader}

theorem readUnionHeader_tag {tag : UInt16} (he : r.error = .none) (h : tagAt r.rest = some tag) :
    ∃ r₁, Succeeds B Reader.readUnionHeader r (some tag) r₁ ∧ r₁.data = r.data ∧
      r₁.pos ≤ r.size := by
  have hlen := CanRead.length_rest r
  cases hrest : r.rest with
  | nil =>
      rw [hrest] at h
      cases h
  | cons b bs =>
      rw [hrest, tagAt] at h
      rw [hrest, List.length_cons] at hlen
      have hsize : r.remaining = r.size - r.pos := rfl
      have hbyte : Prog.Returns Reader.readByte B r b { r with pos := r.pos + 1 } := by
        have hrun := Reader.readByte_ok (B := B) he (show 1 ≤ r.remaining by omega)
        rw [hrest, List.headD_cons] at hrun
        exact Prog.returns_iff.mpr ⟨_, hrun⟩
      by_cases hnarrow : b < wideTag
      · rw [if_pos hnarrow] at h
        have hne : b ≠ nullObject ∧ b ≠ wideTag ∧ ¬ b > wideTag := by
          refine ⟨?_, ?_, ?_⟩
          · rintro rfl
            exact absurd hnarrow (by decide)
          · rintro rfl
            exact absurd hnarrow (by decide)
          · exact UInt8.not_lt.mpr (UInt8.le_of_lt hnarrow)
        refine ⟨{ r with pos := r.pos + 1 }, ⟨hbyte.bind ?_, he⟩, rfl, ?_⟩
        · rw [if_neg hne.1, if_neg hne.2.1, if_neg hne.2.2, ← h]
          exact Prog.returns_pure
        · show r.pos + 1 ≤ r.size
          omega
      · rw [if_neg hnarrow] at h
        by_cases hwide : b = wideTag ∧ 2 ≤ bs.length
        · rw [if_pos hwide] at h
          have htail : ({ r with pos := r.pos + 1 } : MemoryPackReader).rest = bs := by
            rw [Reader.rest_add, hrest]
            rfl
          have hrem : 2 ≤ ({ r with pos := r.pos + 1 } : MemoryPackReader).remaining := by
            rw [← CanRead.length_rest, htail]
            exact hwide.2
          have hraw : Prog.Returns (Reader.readRaw 2) B { r with pos := r.pos + 1 }
              (LittleEndian.leNat (bs.take 2)) { r with pos := r.pos + 1 + 2 } := by
            have hrun := Reader.readRaw_ok (B := B) (r := { r with pos := r.pos + 1 }) he hrem
            rw [htail] at hrun
            exact Prog.returns_iff.mpr ⟨_, hrun⟩
          refine ⟨{ r with pos := r.pos + 1 + 2 }, ⟨hbyte.bind ?_, he⟩, rfl, ?_⟩
          · rw [hwide.1, if_neg (by decide), if_pos rfl, ← h]
            exact hraw.bind Prog.returns_pure
          · show r.pos + 1 + 2 ≤ r.size
            omega
        · rw [if_neg hwide] at h
          cases h

theorem alternativeOf_eq_none {tag : UInt16} : ∀ {tags : List UInt16} {ts : List Ty}, tag ∉ tags →
    alternativeOf tag tags ts = none
  | [], _, _ => rfl
  | _ :: _, [], _ => rfl
  | g :: gs, t :: ts, h => by
      rw [List.mem_cons, not_or] at h
      obtain ⟨hne, hrest⟩ := h
      rw [alternativeOf, if_neg fun hg => hne hg.symm]
      exact alternativeOf_eq_none hrest

/-- A tag that is not declared takes the reader to the end of the input. -/
theorem undeclared_lands (he : r.error = .none) (h : UndeclaredAt tags r) :
    Lands B (Reader.readTy S (Reader.readObject S room) (.variant tags ts) v) r r.size := by
  obtain ⟨tag, htag, hnot⟩ := h
  obtain ⟨r₁, hheader, hdata, hpos⟩ := readUnionHeader_tag (B := B) he htag
  rw [readTy_variant, lands_andThen (sticky_unionBody tags ts v) hheader,
    unionBody_undeclared (alternativeOf_eq_none hnot)]
  have hend : r₁.pos + r₁.remaining = r.size := by
    have hsize : r₁.size = r.size := by rw [MemoryPackReader.size, hdata, MemoryPackReader.size]
    rw [MemoryPackReader.remaining, hsize]
    omega
  refine ⟨v, { r₁ with pos := r₁.pos + r₁.remaining }, ⟨?_, hheader.2⟩, hend⟩
  have hadvance : Prog.Returns (Reader.advance r₁.remaining) B r₁ ()
      { r₁ with pos := r₁.pos + r₁.remaining } :=
    Prog.returns_iff.mpr ⟨_, Reader.advance_ok hheader.2 (Nat.le_refl _)⟩
  have htell : ∀ (e : ReadEvent) (s : MemoryPackReader),
      Prog.Returns (Prog.tell e : ReadM Unit) B s () s := fun _ _ => ⟨rfl, rfl⟩
  have hget : Prog.Returns (Prog.get : ReadM MemoryPackReader) B r₁ r₁ r₁ := ⟨rfl, rfl⟩
  exact (htell _ _).bind (hget.bind (hadvance.bind ((htell _ _).bind Prog.returns_pure)))

/-- A reserved header fails at once. -/
theorem reserved_not_lands (h : ReservedAt r) {q : Nat} :
    ¬ Lands B (Reader.readTy S (Reader.readObject S room) (.variant tags ts) v) r q := by
  obtain ⟨b, bs, hrest, hlow, hhigh⟩ := h
  rw [readTy_variant, lands_bind (sticky_unionBody tags ts v)]
  rintro ⟨o, r₁, hheader, -⟩
  have he := hheader.start Sticky.basicRules.readRules.readUnionHeader
  obtain ⟨hret, he₁⟩ := hheader
  have h1 : 1 ≤ r.remaining := by
    rw [← CanRead.length_rest, hrest]
    exact Nat.succ_pos _
  obtain ⟨b', r₂, hbyte, hret⟩ := Prog.returns_bind.mp hret
  obtain ⟨rfl, rfl⟩ := hbyte.unique (Prog.returns_iff.mpr ⟨_, Reader.readByte_ok he h1⟩)
  rw [hrest, List.headD_cons, if_neg (UInt8.ne_of_lt hhigh),
    if_neg (UInt8.ne_of_lt hlow).symm, if_pos hlow] at hret
  obtain ⟨l, hrun⟩ := Prog.returns_iff.mp hret
  exact (Reader.fail_bind_ret (by decide) hrun).2 he₁

end Headers

/-! ## From the union to the whole decode -/

theorem silent_append_table : ∀ stack : List Frame, silent (stack ++ [.table]) = silent stack
  | [] => rfl
  | .reads left :: stack => by
      rw [List.cons_append, silent, silent, silent_append_table stack]
  | .table :: _ => rfl

theorem silent_append_reads {left : Nat} : ∀ {stack : List Frame},
    silent (stack ++ [.reads left]) = true ↔
      silent stack = true ∧ (.table ∉ stack → left = 0)
  | [] => by simp [silent]
  | .reads n :: stack => by
      have ih : silent (stack ++ [.reads left]) = true ↔
          silent stack = true ∧ (.table ∉ stack → left = 0) := silent_append_reads
      rw [List.cons_append, silent, silent, Bool.and_eq_true, Bool.and_eq_true, ih]
      simp [and_assoc]
  | .table :: stack => by simp [silent]

section Whole

variable {S : Schema} {B : Build} {tags : List UInt16} {ts : List Ty} {room : Nat} {t : Ty}
  {v : Val} {r r' : MemoryPackReader} {stack : List Frame}

theorem ReadsAll.error {read : Ty → Val → ReadM Val} {ps : List (Ty × Val)}
    (h : ReadsAll B read ps r r') : r'.error = .none := by
  induction h with
  | nil he => exact he
  | cons _ _ ih => exact ih

/-- A decode that succeeds has read the union it came to. -/
theorem Comes.union_lands (h : Comes S B tags ts room t v r stack r') :
    ∀ {q}, Lands B (Reader.readTy S (Reader.readObject S room) t v) r q →
      ∃ room' w q', Lands B (Reader.readTy S (Reader.readObject S room') (.variant tags ts) w)
        r' q' := by
  induction h with
  | here => exact fun hland => ⟨_, _, _, hland⟩
  | part hopens hbefore _ ih =>
      intro q hland
      have hall := (allLand_append hbefore).mp (hopens.lands.mp hland)
      obtain ⟨w, r₃, hp, -⟩ := allLand_cons.mp hall
      exact ih ⟨w, r₃, hp, rfl⟩
  | member hkind hconstruct hnull hbefore hpast hnext _ ih =>
      intro q hland
      obtain ⟨q', hmember⟩ := member_lands hkind hconstruct hnull hbefore hpast hnext hland
      exact ih hmember

/-- An undeclared tag fails if something is read after it; if nothing is, in no
formatter up to the outermost, the decode succeeds at the end of the input. -/
theorem Comes.undeclared (h : Comes S B tags ts room t v r stack r') (he : r.error = .none)
    (hsize : r.size < B.sizeMod) (htag : UndeclaredAt tags r') :
    (silent stack = false →
      ∀ q, ¬ Lands B (Reader.readTy S (Reader.readObject S room) t v) r q) ∧
    (.table ∉ stack → silent stack = true →
      Lands B (Reader.readTy S (Reader.readObject S room) t v) r r.size) := by
  induction h with
  | here => exact ⟨(fun hf => nomatch hf), fun _ _ => undeclared_lands he htag⟩
  | @part room t v r room' before p after r₁ r₂ stack r' hopens hbefore _ ih =>
      have hdata : r₂.data = r.data :=
        (hbefore.data fun t v => Sticky.readTy S room' t v).trans hopens.data
      have hsize₂ : r₂.size = r.size := by rw [MemoryPackReader.size, hdata, MemoryPackReader.size]
      obtain ⟨ihfail, ihok⟩ := ih hbefore.error (hsize₂ ▸ hsize) htag
      have hwhole : ∀ {q}, Lands B (Reader.readTy S (Reader.readObject S room) t v) r q ↔
          AllLand B (Reader.readTy S (Reader.readObject S room')) (p :: after) r₂ q :=
        hopens.lands.trans (allLand_append hbefore)
      constructor
      · intro hsilent q hland
        obtain ⟨w, r₃, hp, hafter⟩ := allLand_cons.mp (hwhole.mp hland)
        cases hinner : silent stack with
        | false => exact ihfail hinner _ ⟨w, r₃, hp, rfl⟩
        | true =>
            -- the union was the last of the inner formatters, and here something follows
            have hmore : .table ∉ stack ∧ after.length ≠ 0 := by
              by_contra hnot
              rw [not_and_not_right] at hnot
              have hyes := silent_append_reads.mpr ⟨hinner, hnot⟩
              rw [hsilent] at hyes
              cases hyes
            obtain ⟨w', r₃', hp', hend⟩ := ihok hmore.1 hinner
            obtain ⟨-, rfl⟩ := hp.unique hp'
            have hdata₃ := hp.data (Sticky.readTy S room' p.1 p.2)
            have hsize₃ : r₃.size = r₂.size := by
              rw [MemoryPackReader.size, hdata₃, MemoryPackReader.size]
            cases after with
            | nil => exact hmore.2 rfl
            | cons p' after =>
                obtain ⟨w'', r₄, hp'', -⟩ := allLand_cons.mp hafter
                refine not_lands_at_end (B := B) (S := S) ?_ ?_ ⟨w'', r₄, hp'', rfl⟩
                · rw [hsize₃, hsize₂]
                  exact hsize
                · rw [hend, hsize₃]
      · intro htable hsilent
        have htable' : .table ∉ stack := fun hmem => htable (List.mem_append_left _ hmem)
        obtain ⟨hinner, hleft⟩ := silent_append_reads.mp hsilent
        obtain rfl := List.length_eq_zero_iff.mp (hleft htable')
        obtain hland := ihok htable' hinner
        rw [hsize₂] at hland
        exact hwhole.mpr (allLand_one.mpr hland)
  | @member room i v r vt r₁ t us vs vt' r₂ stack r' hkind hconstruct hnull hbefore hpast hnext _ ih =>
      have hdata : r₂.data = r.data :=
        (hbefore.data fun t v => Sticky.readTy S room t v).trans
          (hconstruct.data Sticky.basicRules.construct)
      have hsize₂ : ({ r₂ with pos := vt'.next } : MemoryPackReader).size = r.size := by
        rw [MemoryPackReader.size, hdata, MemoryPackReader.size]
      constructor
      · intro hsilent q hland
        rw [silent_append_table] at hsilent
        obtain ⟨q', hmember⟩ := member_lands hkind hconstruct hnull hbefore hpast hnext hland
        exact (ih (hbefore.error hconstruct.2) (hsize₂ ▸ hsize) htag).1 hsilent q' hmember
      · intro htable
        exact absurd (List.mem_append_right _ (List.mem_singleton_self _)) htable

end Whole

/-! ## What the caller is told -/

/-- `Deserialize`, `DeserializeExact` or `TryDeserialize` returns normally with `w`: no
exception, and no error in the reader. -/
def ReturnsNormally (S : Schema) (B : Build) (t : Ty) (x : List UInt8) (w : Val) : Prop :=
  (∃ r', Succeeds B (deserialize S t) { data := x } w r') ∨
  (∃ r', Succeeds B (deserializeExact S t) { data := x } w r') ∨
  tryDeserialize S B t x = some (.ok w)

/-- All three do. -/
def AllReturnNormally (S : Schema) (B : Build) (t : Ty) (x : List UInt8) (w : Val) : Prop :=
  (∃ r', Succeeds B (deserialize S t) { data := x } w r') ∧
  (∃ r', Succeeds B (deserializeExact S t) { data := x } w r') ∧
  tryDeserialize S B t x = some (.ok w)

section Told

variable {S : Schema} {B : Build} {t : Ty} {x : List UInt8} {w : Val}

theorem tryDeserialize_eq_ok : tryDeserialize S B t x = some (.ok w) ↔
    ∃ r', Succeeds B (deserialize S t) { data := x } w r' := by
  have hrun : Reader.read S t (S.init t) = deserialize S t := rfl
  unfold tryDeserialize
  rw [hrun]
  rcases hres : deserialize S t B { data := x } with ⟨a | c | _, r', l⟩
  · cases hfailed : r'.failed with
    | true =>
        have hne : r'.error ≠ .none := by simpa [MemoryPackReader.failed] using hfailed
        simp only [hfailed, if_true]
        refine iff_of_false (by rintro ⟨⟩) ?_
        rintro ⟨r'', ⟨-, hst⟩, he⟩
        rw [hres] at hst
        have hst' : r' = r'' := hst
        exact hne (hst' ▸ he)
    | false =>
        have he : r'.error = .none := by simpa [MemoryPackReader.failed] using hfailed
        simp only [hfailed, Bool.false_eq_true, if_false]
        constructor
        · intro h
          cases h
          exact ⟨r', Prog.returns_iff.mpr ⟨l, hres⟩, he⟩
        · rintro ⟨r'', ⟨hout, -⟩, -⟩
          rw [hres] at hout
          rw [Out.ret.inj hout]
  · refine iff_of_false (by rintro ⟨⟩) ?_
    rintro ⟨r'', ⟨hout, -⟩, -⟩
    rw [hres] at hout
    cases hout
  · refine iff_of_false (by rintro ⟨⟩) ?_
    rintro ⟨r'', ⟨hout, -⟩, -⟩
    rw [hres] at hout
    cases hout

theorem sticky_requireEnd (w : Val) : Sticky (do
    let _ ← Reader.requireEnd
    return w : ReadM Val) := by
  refine Sticky.bind ?_ fun _ => .pure _
  refine Sticky.basicRules.get.bind fun r => Prog.Closed.ite (fun _ => ?_) fun _ => .pure _
  exact (Sticky.fail (by decide)).bind fun _ => .pure _

/-- The reader of `Deserialize` has room for an object in every byte, and one more. -/
theorem deserialize_succeeds {r' : MemoryPackReader} :
    Succeeds B (deserialize S t) { data := x } w r' ↔
      Succeeds B (Reader.readTy S (Reader.readObject S (x.length + 1)) t (S.init t))
        { data := x } w r' := by
  have hread : ∀ r : MemoryPackReader, deserialize S t B r =
      Reader.readTy S (Reader.readObject S (r.data.length + 1)) t (S.init t) B r := fun r => rfl
  unfold Succeeds Prog.Returns
  rw [hread]

theorem ReturnsNormally.lands (h : ReturnsNormally S B t x w) :
    ∃ q, Lands B (Reader.readTy S (Reader.readObject S (x.length + 1)) t (S.init t))
      { data := x } q := by
  have hland : ∀ {w r'}, Succeeds B (deserialize S t) { data := x } w r' →
      ∃ q, Lands B (Reader.readTy S (Reader.readObject S (x.length + 1)) t (S.init t))
        { data := x } q := by
    intro w r' h
    exact ⟨r'.pos, w, r', deserialize_succeeds.mp h, rfl⟩
  rcases h with ⟨r', h⟩ | ⟨r', h⟩ | h
  · exact hland h
  · obtain ⟨w', r₁, hread, -⟩ := (succeeds_bind sticky_requireEnd).mp h
    exact hland hread
  · obtain ⟨r', h⟩ := tryDeserialize_eq_ok.mp h
    exact hland h

/-- Where nothing is left, `RequireEnd` has nothing to report. -/
theorem requireEnd_succeeds {r : MemoryPackReader} (he : r.error = .none)
    (hend : r.isEnd = true) : Succeeds B (do
      let _ ← Reader.requireEnd
      return w : ReadM Val) r w r := by
  have hgo : Prog.Returns Reader.requireEnd B r true r := by
    unfold Reader.requireEnd
    constructor
    · simp [hend]
    · simp [hend]
  exact ⟨hgo.bind Prog.returns_pure, he⟩

theorem allReturnNormally_of_lands
    (h : Lands B (Reader.readTy S (Reader.readObject S (x.length + 1)) t (S.init t))
      { data := x } x.length) : ∃ w, AllReturnNormally S B t x w := by
  obtain ⟨w, r', hrun, hpos⟩ := h
  have hread : Succeeds B (deserialize S t) { data := x } w r' := deserialize_succeeds.mpr hrun
  have hdata : r'.data = x := hrun.data (Sticky.readTy S _ t _)
  have hend : r'.isEnd = true := by
    rw [MemoryPackReader.isEnd, MemoryPackReader.size, hdata, hpos]
    exact decide_eq_true (Nat.le_refl _)
  have hexact : Succeeds B (deserializeExact S t) { data := x } w r' :=
    (succeeds_bind sticky_requireEnd).mpr ⟨w, r', hread, requireEnd_succeeds hrun.2 hend⟩
  exact ⟨w, ⟨r', hread⟩, ⟨r', hexact⟩, tryDeserialize_eq_ok.mpr ⟨r', hread⟩⟩

end Told

/-- A header that fails on the spot, or a value that is still to be read after the union
before the decode or the enclosing `VersionTolerant` member ends. -/
def Caught (stack : List Frame) (r' : MemoryPackReader) : Prop :=
  ReservedAt r' ∨ silent stack = false

/-- A reserved header fails on the spot. After an undeclared tag nothing is left, so the
next value that is read fails. -/
theorem Comes.rejected {S : Schema} {B : Build} {t : Ty} {x : List UInt8} {tags : List UInt16}
    {ts : List Ty} {stack : List Frame} {r' : MemoryPackReader} (hx : x.length < B.sizeMod)
    (h : Comes S B tags ts (x.length + 1) t (S.init t) { data := x } stack r')
    (hheader : UndeclaredAt tags r' ∨ ReservedAt r') (hcaught : Caught stack r') :
    ∀ w, ¬ ReturnsNormally S B t x w := by
  intro w hnormal
  obtain ⟨q, hland⟩ := hnormal.lands
  have hreject : ReservedAt r' → False := by
    intro hreserved
    obtain ⟨room, u, q', hunion⟩ := h.union_lands hland
    exact reserved_not_lands hreserved hunion
  rcases hheader with htag | hreserved
  · rcases hcaught with hreserved | hsilent
    · exact hreject hreserved
    · exact (h.undeclared rfl hx htag).1 hsilent q hland
  · exact hreject hreserved

/-- A union at any place inside a value, in either build, whose header is reserved or
carries a tag that no alternative declares. `Deserialize`, `DeserializeExact` and
`TryDeserialize` reject the input if the header is `Caught`. Outside `VersionTolerant`
members they reject it in no other case. -/
theorem undeclared_tag_rejected_iff (S : Schema) (B : Build) (t : Ty) (x : List UInt8)
    (tags : List UInt16) (ts : List Ty) (stack : List Frame) (r' : MemoryPackReader)
    (hx : x.length < B.sizeMod)
    (h : Comes S B tags ts (x.length + 1) t (S.init t) { data := x } stack r')
    (hheader : UndeclaredAt tags r' ∨ ReservedAt r') :
    (Caught stack r' → ∀ w, ¬ ReturnsNormally S B t x w) ∧
    (.table ∉ stack → ((∀ w, ¬ ReturnsNormally S B t x w) ↔ Caught stack r')) := by
  have hrejected := h.rejected hx hheader
  refine ⟨hrejected, fun htable => ⟨?_, hrejected⟩⟩
  intro hnone
  rcases hheader with htag | hreserved
  · cases hsilent : silent stack with
    | false => exact .inr hsilent
    | true =>
        -- nothing else is read, and nothing is left over for `RequireEnd` to see
        obtain ⟨w, hall⟩ := allReturnNormally_of_lands ((h.undeclared rfl hx htag).2 htable hsilent)
        exact absurd (.inl hall.1) (hnone w)
  · exact .inl hreserved

/-- A pair of a union that declares the tag 1 and a byte, with the tag 7: the byte is
missing. -/
theorem undeclared_tag_before_byte : ¬ ∃ w, ReturnsNormally Schema.plain ⟨true, .little, .w64, 0⟩
    (.pair (.variant [1] [.scalar (.int false .w1)]) (.scalar (.int false .w1))) [7, 5, 9] w := by
  have hsize : ([7, 5, 9] : List UInt8).length < Build.sizeMod ⟨true, .little, .w64, 0⟩ := by
    decide +kernel
  have hopens : Opens Schema.plain ⟨true, .little, .w64, 0⟩ 4
      (.pair (.variant [1] [.scalar (.int false .w1)]) (.scalar (.int false .w1)))
      (.pair (.alt 0 (.scalar 0)) (.scalar 0)) { data := [7, 5, 9] } 4
      ([] ++ (.variant [1] [.scalar (.int false .w1)], .alt 0 (.scalar 0)) ::
        [(.scalar (.int false .w1), .scalar 0)]) { data := [7, 5, 9] } := .pair
  have hrejected := (undeclared_tag_rejected_iff Schema.plain ⟨true, .little, .w64, 0⟩ _ [7, 5, 9]
    [1] [.scalar (.int false .w1)] [.reads 1] { data := [7, 5, 9] } hsize
    (.part hopens (.nil rfl) .here) (.inl ⟨7, rfl, by decide⟩)).1 (.inr rfl)
  exact not_exists.mpr hrejected

/-- The union alone: `Deserialize`, `DeserializeExact` and `TryDeserialize` return the
default alternative for the tag 7, which is not declared. -/
theorem undeclared_tag_returns_default :
    AllReturnNormally Schema.plain ⟨true, .little, .w64, 0⟩
      (.variant [1] [.scalar (.int false .w1)]) [7, 5, 9] (.alt 0 (.scalar 0)) := by
  have hread : Succeeds ⟨true, .little, .w64, 0⟩ (deserialize Schema.plain
      (.variant [1] [.scalar (.int false .w1)])) { data := [7, 5, 9] } (.alt 0 (.scalar 0))
      { data := [7, 5, 9], pos := 3 } := ⟨⟨rfl, rfl⟩, rfl⟩
  have hexact : Succeeds ⟨true, .little, .w64, 0⟩ (deserializeExact Schema.plain
      (.variant [1] [.scalar (.int false .w1)])) { data := [7, 5, 9] } (.alt 0 (.scalar 0))
      { data := [7, 5, 9], pos := 3 } :=
    (succeeds_bind sticky_requireEnd).mpr ⟨_, _, hread, requireEnd_succeeds rfl rfl⟩
  exact ⟨⟨_, hread⟩, ⟨_, hexact⟩, tryDeserialize_eq_ok.mpr ⟨_, hread⟩⟩

end MemoryPack
