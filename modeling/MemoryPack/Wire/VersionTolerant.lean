import MemoryPack.Wire.Reads

/-!
# The `VersionTolerant` member table

A `VersionTolerant` object sends the length of each member before the members, and
`VersionTolerantReader` re-derives its cursor from these lengths: wherever the
decoder of a member stopped, the next member starts where the table says. `At` is
that invariant. It ties the table to the encodings of the members, and each call
moves it by one member.
-/

namespace MemoryPack

open Effect LittleEndian

namespace VersionTolerantReader

/-- The table of an object whose members have the encodings `bss`, the first of
which starts at `base`. -/
structure At (vt : VersionTolerantReader) (base : Nat) (bss : List (List UInt8)) : Prop where
  isNull : vt.isNull = false
  lengths : vt.lengths = bss.map List.length
  count : vt.count = bss.length
  next : vt.next = base + (bss.take vt.index).flatten.length

/-- The table after one more member. -/
def moved (vt : VersionTolerantReader) (base : Nat) (bss : List (List UInt8)) :
    VersionTolerantReader :=
  { vt with index := vt.index + 1, next := base + (bss.take (vt.index + 1)).flatten.length }

/-- A reader that can take every member of the object. -/
structure Spans (B : Build) (base : Nat) (bss : List (List UInt8)) (r : MemoryPackReader) :
    Prop where
  error : r.error = .none
  fits : base + bss.flatten.length ≤ r.size
  size_lt : r.size < B.sizeMod

variable {B : Build} {vt : VersionTolerantReader} {base : Nat} {bss : List (List UInt8)}
  {r : MemoryPackReader}

theorem At.moved (h : vt.At base bss) : (vt.moved base bss).At base bss :=
  ⟨h.isNull, h.lengths, h.count, rfl⟩

theorem Spans.seek (h : Spans B base bss r) (pos : Nat) : Spans B base bss { r with pos := pos } :=
  ⟨h.error, h.fits, h.size_lt⟩

theorem length_take_flatten_le (bss : List (List UInt8)) (i : Nat) : (bss.take i).flatten.length ≤ bss.flatten.length := by
  conv_rhs => rw [← List.take_append_drop i bss, List.flatten_append, List.length_append]
  exact Nat.le_add_right _ _

/-- `start + lengths_[index_]` is the end of the member. -/
theorem At.stop (h : vt.At base bss) (hi : vt.index < bss.length) :
    vt.next + vt.lengths.getD vt.index 0 = (vt.moved base bss).next := by
  have hget : vt.lengths.getD vt.index 0 = (bss.get ⟨vt.index, hi⟩).length := by
    rw [h.lengths, List.getD_eq_getElem?_getD, List.getElem?_map, List.getElem?_eq_getElem hi]
    rfl
  show _ = base + (bss.take (vt.index + 1)).flatten.length
  rw [hget, h.next, List.take_succ_eq_append_getElem hi, List.flatten_append, List.length_append,
    Nat.add_assoc]
  simp

theorem At.stop_mod (h : vt.At base bss) (hr : Spans B base bss r) (hi : vt.index < bss.length) :
    (vt.next + vt.lengths.getD vt.index 0) % B.sizeMod = (vt.moved base bss).next := by
  have hle := length_take_flatten_le bss (vt.index + 1)
  have hfits := hr.fits
  have hlt := hr.size_lt
  rw [h.stop hi]
  apply Nat.mod_eq_of_lt
  show base + (bss.take (vt.index + 1)).flatten.length < B.sizeMod
  omega

theorem Spans.seek_taken (hr : Spans B base bss r) (i : Nat) :
    Reader.seek (base + (bss.take i).flatten.length) B r =
      ⟨.ret (), { r with pos := base + (bss.take i).flatten.length },
        [.sought r.pos (base + (bss.take i).flatten.length) r.failed,
          .moved (base + (bss.take i).flatten.length)]⟩ := by
  have hle := length_take_flatten_le bss i
  have hfits := hr.fits
  apply Reader.seek_within
  omega

/-- The constructor reads the lengths and stands at the first member. -/
theorem construct_at {d : Nat} {s : List UInt8} (hcount : bss.length ≤ 249)
    (hlen : ∀ bs ∈ bss, bs.length < 2 ^ 32) (hr : CanRead B d r)
    (hrest : r.rest = encodeVersionTolerant bss ++ s) :
    ∃ l base vt, construct B r = ⟨.ret vt, { r with pos := base }, l⟩ ∧ vt.At base bss ∧
      vt.index = 0 ∧ CanRead B d { r with pos := base } ∧
      ({ r with pos := base } : MemoryPackReader).rest = bss.flatten ++ s ∧
      r.pos + (encodeVersionTolerant bss).length = base + bss.flatten.length := by
  have hlengths : List.Forall₂ (fun bs n => ∀ ls : List Nat, Reads B d
      (do return ls ++ [← Reader.readVarIntLength]) bs (ls ++ [n]))
      (bss.map fun bs => encodeVarInt bs.length) (bss.map List.length) := by
    rw [List.forall₂_map_left_iff, List.forall₂_map_right_iff, List.forall₂_same]
    intro bs hbs ls
    exact (Reads.readVarIntLength (hlen bs hbs)).map fun n => ls ++ [n]
  have hloop := Reads.forWhile hlengths []
  have htoNat : (UInt8.ofNat bss.length).toNat = bss.length := by
    rw [UInt8.toNat_ofNat']
    omega
  rw [List.length_map, ← List.flatMap_def, List.foldl_append_eq_append, List.nil_append,
    ← List.flatMap_def, List.flatMap_singleton'] at hloop
  have hrest' : r.rest = [UInt8.ofNat bss.length] ++
      ((bss.flatMap fun bs => encodeVarInt bs.length) ++ (bss.flatten ++ s)) := by
    rw [hrest, encodeVersionTolerant]
    simp
  obtain ⟨l, hheader⟩ :=
    Reads.readObjectHeader (ofNat_le_maxMemberCount hcount) r _ hr hrest'
  have hr' := hr.move hrest'
  have hlens := CanRead.rest_move hrest'
  obtain ⟨l', htable⟩ := hloop _ _ hr' hlens
  refine ⟨l ++ l', r.pos + 1 + (bss.flatMap fun bs => encodeVarInt bs.length).length,
    { lengths := bss.map List.length, count := bss.length,
      next := r.pos + 1 + (bss.flatMap fun bs => encodeVarInt bs.length).length },
    ?_, ⟨rfl, rfl, rfl, rfl⟩, rfl, hr'.move hlens, CanRead.rest_move hlens, ?_⟩
  · simp only [construct, Prog.bind_apply, hheader, Res.bind_ret, htoNat, htable, Prog.get_apply,
      Prog.pure_apply, Res.after_mk, List.append_nil, if_false, Bool.false_eq_true]
    rfl
  · simp [encodeVersionTolerant]
    omega

/-- `ReadMember` with a decoder that succeeds at the member's start, wherever it
stops. -/
theorem readMember_at {read : Val → ReadM Val} {out v : Val} {pos : Nat} {l : List ReadEvent}
    (h : vt.At base bss) (hr : Spans B base bss r) (hi : vt.index < bss.length)
    (hread : read out B { r with pos := vt.next } = ⟨.ret v, { r with pos := pos }, l⟩) :
    ∃ l', vt.readMember read out B r =
      ⟨.ret (true, v, vt.moved base bss), { r with pos := (vt.moved base bss).next }, l'⟩ := by
  have hin : ¬ (vt.isNull = true ∨ vt.index ≥ vt.count) := by
    rw [h.isNull, h.count]
    simpa using hi
  have hstart := hr.seek_taken vt.index
  rw [← h.next] at hstart
  have hstop : Reader.seek (vt.moved base bss).next B { r with pos := pos } =
      ⟨.ret (), { r with pos := (vt.moved base bss).next }, _⟩ :=
    (hr.seek pos).seek_taken (vt.index + 1)
  have hfailed : Reader.failed B { r with pos := vt.next } =
      ⟨.ret false, { r with pos := vt.next }, []⟩ := by
    simp [Reader.failed, MemoryPackReader.failed, hr.error]
  exact ⟨_, by
    simp only [readMember, if_neg hin, lengthAt, Prog.bind_apply, Prog.tell_apply, Prog.pure_apply,
      Prog.ask_apply, Res.bind_ret, h.stop_mod hr hi, hstart, hfailed, if_false, hread, hstop,
      Res.after_mk, Bool.false_eq_true]
    rfl⟩

theorem skipMember_at (h : vt.At base bss) (hr : Spans B base bss r) (hi : vt.index < bss.length) :
    ∃ l, vt.skipMember B r =
      ⟨.ret (true, vt.moved base bss), { r with pos := (vt.moved base bss).next }, l⟩ := by
  have hin : ¬ (vt.isNull = true ∨ vt.index ≥ vt.count) := by
    rw [h.isNull, h.count]
    simpa using hi
  have hstop : Reader.seek (vt.moved base bss).next B r =
      ⟨.ret (), { r with pos := (vt.moved base bss).next }, _⟩ :=
    hr.seek_taken (vt.index + 1)
  exact ⟨_, by
    simp only [skipMember, if_neg hin, lengthAt, Prog.bind_apply, Prog.tell_apply, Prog.pure_apply,
      Prog.ask_apply, Res.bind_ret, h.stop_mod hr hi, hstop, Res.after_mk]
    rfl⟩

/-- `Finish()`, with `left` members to go: every member is skipped. -/
theorem skipRest_at : ∀ (left : Nat) (vt : VersionTolerantReader) (r : MemoryPackReader),
    vt.At base bss → Spans B base bss r → vt.index + left = bss.length → ∃ l pos vt',
      skipRest left vt B r = ⟨.ret vt', { r with pos := pos }, l⟩ ∧ vt'.At base bss ∧
        vt'.index = bss.length
  | 0, vt, r, h, _, hleft => ⟨[], r.pos, vt, rfl, h, hleft⟩
  | left + 1, vt, r, h, hr, hleft => by
      obtain ⟨l, hskip⟩ := skipMember_at h hr (by omega)
      obtain ⟨l', pos, vt', hrest, hat, hend⟩ := skipRest_at left (vt.moved base bss) _ h.moved
        (hr.seek (vt.moved base bss).next) (by show vt.index + 1 + left = _; omega)
      refine ⟨l ++ l', pos, vt', ?_, hat, hend⟩
      rw [skipRest, Prog.bind_apply, hskip, Res.bind_ret]
      show Res.after l (skipRest left (vt.moved base bss) B _) = _
      rw [hrest, Res.after_mk]

theorem finish_at (h : vt.At base bss) (hr : Spans B base bss r) (hi : vt.index ≤ bss.length) :
    ∃ l vt', vt.finish B r =
      ⟨.ret vt', { r with pos := base + bss.flatten.length }, l⟩ := by
  obtain ⟨l, pos, vt', hskip, hat, hend⟩ :=
    skipRest_at (bss.length - vt.index) vt r h hr (by omega)
  have hseek := (hr.seek pos).seek_taken bss.length
  have hnext : vt'.next = base + bss.flatten.length := by rw [hat.next, hend, List.take_length]
  rw [List.take_length] at hseek
  exact ⟨_, vt', by
    rw [finish, h.count, Prog.bind_apply, hskip, Res.bind_ret]
    simp only [hat.isNull, Bool.not_false, if_true, hnext, Prog.bind_apply, hseek, Res.bind_ret,
      Prog.pure_apply, Res.after_mk, List.append_nil]
    rfl⟩

end VersionTolerantReader

end MemoryPack
