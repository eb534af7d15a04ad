import MemoryPack.Wire.Packet

/-!
# The frame parser over a whole connection

`Wire.Packet` says which frames a connection delivers. Here is what the parser does
besides: how much it holds between two calls of `Feed`, and what becomes of a frame
whose callback does not simply return.
-/

namespace MemoryPack

/-! ## Storage -/

namespace PacketHeaderPolicy

variable (P : PacketHeaderPolicy) {e : Endian} {maxBodyLength : Nat} {x : List UInt8}

/-- A frame takes at least its header. -/
theorem headerSize_le_of_item {a : Packet} {rest : List UInt8}
    (h : P.firstFrame e maxBodyLength x = .item a rest) :
    rest.length + P.headerSize ≤ x.length := by
  unfold firstFrame at h
  split at h
  · simp at h
  · split at h
    · simp at h
    · split at h
      · simp at h
      · obtain ⟨-, rfl⟩ := Framing.Frame.item.inj h
        rw [List.length_drop]
        omega

/-- What is short of a frame is shorter than the longest frame allowed. -/
theorem length_lt_of_incomplete (h : P.firstFrame e maxBodyLength x = .incomplete) :
    x.length < P.headerSize + maxBodyLength := by
  unfold firstFrame at h
  split at h
  · omega
  · split at h
    · simp at h
    · split at h
      · omega
      · simp at h

end PacketHeaderPolicy

namespace PacketFrameParser

variable (P : PacketHeaderPolicy) (e : Endian)

/-- Any number of `Feed`s, whatever they return. -/
def feeds (p : PacketFrameParser) (chunks : List (List UInt8)) : PacketFrameParser :=
  chunks.foldl (fun p chunk => (p.feed P e chunk).2.2) p

/-- Compaction leaves at most 4096 consumed bytes in front of the pending ones. -/
theorem consumed_compact_le (p : PacketFrameParser) : p.compact.consumed ≤ 4096 := by
  unfold compact
  split
  · next h => omega
  · split
    · exact Nat.zero_le _
    · split
      · exact Nat.zero_le _
      · next h => omega

theorem consumed_feed_le (p : PacketFrameParser) (chunk : List UInt8) :
    (p.feed P e chunk).2.2.consumed ≤ 4096 := by
  rcases hloop : feedLoop P e p.maxBodyLength (p.buffer ++ chunk) p.consumed with ⟨packets, _ | c⟩
  · simp only [feed, hloop]
    exact Nat.zero_le _
  · simp only [feed, hloop]
    exact consumed_compact_le _

/-- What holds between two calls. -/
structure Resting (maxBodyLength : Nat) (p : PacketFrameParser) : Prop where
  valid : p.Valid
  limit : p.maxBodyLength = maxBodyLength

/-- One `Feed` of a parser at rest: it is at rest afterwards, it delivers at most one
frame for each header that fits the available bytes, and where it returns `true` it
holds less than a frame. -/
theorem feed_resting {maxBodyLength : Nat} {p : PacketFrameParser} (hp : Resting maxBodyLength p)
    (chunk : List UInt8) :
    Resting maxBodyLength (p.feed P e chunk).2.2 ∧
    (p.feed P e chunk).1.length * P.headerSize ≤ p.buffered + chunk.length ∧
    ((p.feed P e chunk).2.1 = true →
      (p.feed P e chunk).2.2.buffered < P.headerSize + maxBodyLength ∧
      (p.feed P e chunk).2.2.consumed ≤ 4096) := by
  obtain ⟨hsome, hnone⟩ := feed_eq P e hp.valid chunk
  have hcount := (P.framing e p.maxBodyLength).length_split_mul_le
    (fun h => P.headerSize_le_of_item h) (p.pending ++ chunk)
  rw [List.length_append, length_pending] at hcount
  rcases hsplit : (P.framing e p.maxBodyLength).split (p.pending ++ chunk) with
    ⟨packets, _ | rest⟩
  · rw [hnone packets hsplit]
    rw [hsplit] at hcount
    refine ⟨⟨Nat.le_refl 0, hp.limit⟩, hcount, ?_⟩
    intro h
    simp at h
  · obtain ⟨p', hfeed, hvalid, hpending, hmax⟩ := hsome packets rest hsplit
    have hnext := (P.framing e p.maxBodyLength).next_of_split _ rest (congrArg Prod.snd hsplit)
    have hlt := P.length_lt_of_incomplete hnext
    have hconsumed := consumed_feed_le P e p chunk
    rw [hfeed] at hconsumed ⊢
    rw [hsplit] at hcount
    refine ⟨⟨hvalid, hmax.trans hp.limit⟩, hcount, fun _ => ⟨?_, hconsumed⟩⟩
    rw [← length_pending, hpending, ← hp.limit]
    exact hlt

theorem feeds_resting {maxBodyLength : Nat} (chunks : List (List UInt8)) :
    ∀ {p : PacketFrameParser}, Resting maxBodyLength p →
      Resting maxBodyLength (p.feeds P e chunks) := by
  induction chunks with
  | nil => exact fun hp => hp
  | cons chunk chunks ih => exact fun hp => ih (feed_resting P e hp chunk).1

end PacketFrameParser

/-- After any number of `Feed`s, one more delivers at most one frame for each header
that fits the bytes available to it. Where it returns `true`, the parser holds less than
a frame of the largest size behind at most 4096 consumed bytes. -/
theorem feed_storage_bounded (P : PacketHeaderPolicy) (e : Endian) (maxBodyLength : Nat)
    (chunks : List (List UInt8)) (chunk : List UInt8) :
    let p := PacketFrameParser.feeds P e { maxBodyLength := maxBodyLength } chunks
    (p.feed P e chunk).1.length ≤ (p.buffered + chunk.length) / P.headerSize ∧
    ((p.feed P e chunk).2.1 = true →
      (p.feed P e chunk).2.2.buffered < P.headerSize + maxBodyLength ∧
      (p.feed P e chunk).2.2.consumed ≤ 4096 ∧
      (p.feed P e chunk).2.2.buffer.length < P.headerSize + maxBodyLength + 4096) := by
  intro p
  have hp : PacketFrameParser.Resting maxBodyLength p :=
    PacketFrameParser.feeds_resting P e chunks ⟨Nat.le_refl 0, rfl⟩
  obtain ⟨hrest, hcount, hheld⟩ := PacketFrameParser.feed_resting P e hp chunk
  refine ⟨(Nat.le_div_iff_mul_le P.headerSize_pos).mpr hcount, fun h => ?_⟩
  obtain ⟨hbuffered, hconsumed⟩ := hheld h
  refine ⟨hbuffered, hconsumed, ?_⟩
  have hvalid : (p.feed P e chunk).2.2.consumed ≤ (p.feed P e chunk).2.2.buffer.length := hrest.valid
  unfold PacketFrameParser.buffered at hbuffered
  omega

/-! ## Delivery

The parts of the stream that are frames or were dropped follow each other without a gap
or an overlap, up to the bytes still pending. That each frame is delivered once, and that
the ones behind a throwing callback are not lost, are two readings of it. -/

namespace PacketFrameParser

/-- The stream from `a` to `b`, cut into the parts of the events. -/
def Tiles (a : Nat) : List StreamEvent → Nat → Prop
  | [], b => a = b
  | .frame start size _ :: evs, b => start = a ∧ Tiles (a + size) evs b
  | .discarded start size :: evs, b => start = a ∧ Tiles (a + size) evs b

theorem Tiles.append {b c : Nat} {evs' : List StreamEvent} (h' : Tiles b evs' c) :
    ∀ {a : Nat} {evs : List StreamEvent}, Tiles a evs b → Tiles a (evs ++ evs') c
  | _, [], h => h ▸ h'
  | _, .frame _ _ _ :: _, h => ⟨h.1, Tiles.append h' h.2⟩
  | _, .discarded _ _ :: _, h => ⟨h.1, Tiles.append h' h.2⟩

/-- The event hands over a frame of the stream. -/
def IsFrame (P : PacketHeaderPolicy) (e : Endian) (stream : List UInt8) : StreamEvent → Prop
  | .frame start size packet => 0 < size ∧ start + size ≤ stream.length ∧ ∃ maxBodyLength,
      P.firstFrame e maxBodyLength (stream.drop start) = .item packet (stream.drop (start + size))
  | .discarded _ _ => True

variable {P : PacketHeaderPolicy} {e : Endian} {stream : List UInt8}

/-- More bytes at the end of the stream change no frame of it. -/
theorem IsFrame.append {ev : StreamEvent} (h : IsFrame P e stream ev) (chunk : List UInt8) :
    IsFrame P e (stream ++ chunk) ev := by
  cases ev with
  | discarded start size => trivial
  | frame start size packet =>
      obtain ⟨hsize, hend, maxBodyLength, hitem⟩ := h
      refine ⟨hsize, ?_, maxBodyLength, ?_⟩
      · rw [List.length_append]
        omega
      · rw [List.drop_append_of_le_length (by omega), List.drop_append_of_le_length hend]
        exact P.firstFrame_append_item hitem chunk

/-- Frames that tile the stream start one behind the other. -/
theorem Tiles.starts_sorted {b : Nat} : ∀ {a : Nat} {evs : List StreamEvent}, Tiles a evs b →
    (∀ ev ∈ evs, IsFrame P e stream ev) →
    (∀ s ∈ Connection.starts evs, a ≤ s) ∧ (Connection.starts evs).Pairwise (· < ·)
  | _, [], _, _ => ⟨fun _ hs => absurd hs List.not_mem_nil, List.Pairwise.nil⟩
  | a, .frame start size packet :: evs, ⟨hstart, h⟩, hframes => by
      obtain ⟨hle, hsorted⟩ := Tiles.starts_sorted h fun ev hev =>
        hframes ev (List.mem_cons_of_mem _ hev)
      have hsize := (hframes _ List.mem_cons_self).1
      show (∀ s ∈ start :: Connection.starts evs, a ≤ s) ∧
        (start :: Connection.starts evs).Pairwise (· < ·)
      subst hstart
      refine ⟨?_, List.Pairwise.cons ?_ hsorted⟩
      · intro s hs
        rcases List.mem_cons.mp hs with rfl | hs
        · exact Nat.le_refl _
        · exact Nat.le_trans (Nat.le_add_right _ _) (hle s hs)
      · intro s hs
        exact Nat.lt_of_lt_of_le (Nat.lt_add_of_pos_right hsize) (hle s hs)
  | a, .discarded start size :: evs, ⟨_, h⟩, hframes => by
      obtain ⟨hle, hsorted⟩ := Tiles.starts_sorted h fun ev hev =>
        hframes ev (List.mem_cons_of_mem _ hev)
      exact ⟨fun s hs => Nat.le_trans (Nat.le_add_right _ _) (hle s hs), hsorted⟩

/-- The parser holds the end of the stream. -/
structure Holds (stream : List UInt8) (p : PacketFrameParser) : Prop where
  valid : p.Valid
  le : p.buffered ≤ stream.length
  pending : p.pending = stream.drop (stream.length - p.buffered)

/-- The first byte of the stream that is still pending. -/
def position (stream : List UInt8) (p : PacketFrameParser) : Nat := stream.length - p.buffered

theorem buffered_compact (p : PacketFrameParser) : p.compact.buffered = p.buffered := by
  rw [← length_pending, ← length_pending, pending_compact]

theorem Holds.compact {p : PacketFrameParser} (h : Holds stream p) : Holds stream p.compact where
  valid := valid_compact h.valid
  le := by
    rw [buffered_compact]
    exact h.le
  pending := by
    rw [buffered_compact, pending_compact]
    exact h.pending

theorem Holds.empty {p : PacketFrameParser} (hbuffer : p.buffer = []) (hconsumed : p.consumed = 0) :
    Holds stream p where
  valid := by simp [Valid, hconsumed]
  le := by simp [buffered, hbuffer]
  pending := by simp [PacketFrameParser.pending, buffered, hbuffer]

/-- Advancing `consumed_` over bytes that are there. -/
theorem Holds.advance {p p' : PacketFrameParser} {size : Nat} (h : Holds stream p)
    (hsize : size ≤ p.buffered) (hbuffer : p'.buffer = p.buffer)
    (hconsumed : p'.consumed = p.consumed + size) : Holds stream p' := by
  have hvalid : p.consumed ≤ p.buffer.length := h.valid
  have hheld : p'.buffered = p.buffered - size := by
    unfold buffered
    rw [hbuffer, hconsumed]
    omega
  have hle := h.le
  refine ⟨?_, ?_, ?_⟩
  · unfold Valid
    unfold buffered at hsize
    rw [hbuffer, hconsumed]
    omega
  · omega
  · have hpending : p'.pending = p.pending.drop size := by
      unfold PacketFrameParser.pending
      rw [hbuffer, hconsumed, List.drop_drop]
    rw [hpending, h.pending, List.drop_drop, hheld]
    congr 1
    omega

/-- What one `Feed` does to a stream it holds the end of. -/
structure Delivers (P : PacketHeaderPolicy) (e : Endian) (stream : List UInt8)
    (p : PacketFrameParser) (r : FeedRun) : Prop where
  defined : r.stop ≠ .undefined
  points : ∀ q ∈ r.points, q.Valid
  holds : Holds stream r.parser
  tiles : Tiles (position stream p) r.events (position stream r.parser)
  frames : ∀ ev ∈ r.events, IsFrame P e stream ev
  drained : r.stop = .returned true →
    P.firstFrame e r.parser.maxBodyLength r.parser.pending = .incomplete

/-- One round, by what the pending bytes start with. -/
theorem feedRounds_eq (onPacket : Nat → Packet → Reaction) (fed invoked : Nat)
    {p : PacketFrameParser} (hp : p.Valid) :
    match P.firstFrame e p.maxBodyLength p.pending with
    | .incomplete => feedRounds P e onPacket fed invoked p =
        ⟨p.compact, [], [p, p.compact], .returned true⟩
    | .broken => feedRounds P e onPacket fed invoked p =
        ⟨p.reset, [.discarded (fed - p.buffered) p.buffered], [p, p.reset], .returned false⟩
    | .item packet rest => ∃ size, 0 < size ∧ size ≤ p.buffered ∧ rest = p.pending.drop size ∧
        feedRounds P e onPacket fed invoked p =
          let reaction := onPacket invoked packet
          let p' := reaction.calls.foldl call p
          let dropped := if reaction.resets then
            [StreamEvent.discarded (fed - p.buffered + size) (p.buffered - size)] else []
          if reaction.throws then
            ⟨p', .frame (fed - p.buffered) size packet :: dropped, reaction.calls.scanl call p,
              .threw⟩
          else
            let next := feedRounds P e onPacket fed (invoked + 1)
              { p' with consumed := p'.consumed + size }
            ⟨next.parser, .frame (fed - p.buffered) size packet :: (dropped ++ next.events),
              reaction.calls.scanl call p ++ next.points, next.stop⟩ := by
  have hvalid : ¬ p.buffer.length < p.consumed := Nat.not_lt.mpr hp
  have hpos := P.headerSize_pos
  have hheld : p.buffered = p.buffer.length - p.consumed := rfl
  unfold PacketHeaderPolicy.firstFrame
  rw [feedRounds, if_neg hvalid, length_pending]
  simp only [← hheld]
  unfold PacketFrameParser.pending
  by_cases h₁ : p.buffered < P.headerSize
  · rw [if_pos h₁, if_pos h₁]
  · rw [if_neg h₁, if_neg h₁]
    by_cases h₂ : (P.read e (p.buffer.drop p.consumed)).2 < 0 ∨
        (P.read e (p.buffer.drop p.consumed)).2.toNat > p.maxBodyLength
    · rw [if_pos h₂, if_pos h₂]
    · rw [if_neg h₂, if_neg h₂]
      by_cases h₃ : p.buffered < P.headerSize + (P.read e (p.buffer.drop p.consumed)).2.toNat
      · rw [if_pos h₃, if_pos h₃]
      · rw [if_neg h₃, if_neg h₃]
        refine ⟨P.headerSize + (P.read e (p.buffer.drop p.consumed)).2.toNat, ?_, ?_, rfl, ?_⟩
        · omega
        · omega
        · rw [List.drop_drop]

theorem foldl_call_of_resets {x : Reaction} (h : x.resets = true) (p : PacketFrameParser) :
    (x.calls.foldl call p).buffer = [] ∧ (x.calls.foldl call p).consumed = 0 := by
  rcases foldl_call x.calls p with ⟨hmem, -⟩ | ⟨-, hp⟩
  · exact absurd (List.contains_iff_mem.mp h) hmem
  · exact hp

theorem foldl_call_of_not_resets {x : Reaction} (h : x.resets = false) (p : PacketFrameParser) :
    (x.calls.foldl call p).buffer = p.buffer ∧ (x.calls.foldl call p).consumed = p.consumed := by
  rcases foldl_call x.calls p with ⟨-, hp⟩ | ⟨hmem, -⟩
  · exact hp
  · rw [Reaction.resets, List.contains_iff_mem.mpr hmem] at h
    exact absurd h (by simp)

/-- Neither call moves `consumed_` out of the buffer. -/
theorem scanl_valid {p : PacketFrameParser} (hp : p.Valid) (calls : List ParserCall) :
    ∀ q ∈ calls.scanl call p, q.Valid := by
  induction calls generalizing p with
  | nil =>
      intro q hq
      rw [List.scanl_nil, List.mem_singleton] at hq
      exact hq ▸ hp
  | cons c calls ih =>
      intro q hq
      rw [List.scanl_cons, List.mem_cons] at hq
      rcases hq with rfl | hq
      · exact hp
      · have hcall : (p.call c).Valid := by
          cases c with
          | reset => exact Nat.le_refl 0
          | setMaxBodyLength value => exact hp
        exact ih hcall q hq

/-- A whole `Feed` whose callback throws exactly where it calls `Reset()`. -/
theorem feedRounds_delivers {onPacket : Nat → Packet → Reaction}
    (honPacket : ∀ k a, (onPacket k a).throws = (onPacket k a).resets) (invoked : Nat)
    {p : PacketFrameParser} (hp : Holds stream p) :
    Delivers P e stream p (feedRounds P e onPacket stream.length invoked p) := by
  induction hn : p.buffered using Nat.strongRecOn generalizing p invoked with
  | ind n ih =>
      subst hn
      have hround := feedRounds_eq (P := P) (e := e) onPacket stream.length invoked hp.valid
      cases hfirst : P.firstFrame e p.maxBodyLength p.pending with
      | incomplete =>
          rw [hfirst] at hround
          rw [hround]
          refine ⟨by simp, ?_, hp.compact, ?_, by simp, fun _ => ?_⟩
          · intro q hq
            rcases List.mem_pair.mp hq with rfl | rfl
            · exact hp.valid
            · exact valid_compact hp.valid
          · show position stream p = position stream p.compact
            rw [position, position, buffered_compact]
          · rw [pending_compact, maxBodyLength_compact]
            exact hfirst
      | broken =>
          rw [hfirst] at hround
          rw [hround]
          refine ⟨by simp, ?_, Holds.empty rfl rfl, ⟨rfl, ?_⟩, ?_, by simp⟩
          · intro q hq
            rcases List.mem_pair.mp hq with rfl | rfl
            · exact hp.valid
            · exact Nat.le_refl 0
          · have hle := hp.le
            show position stream p + p.buffered = stream.length - 0
            unfold position
            omega
          · intro ev hev
            rw [List.mem_singleton.mp hev]
            trivial
      | item packet rest =>
          rw [hfirst] at hround
          obtain ⟨size, hsize, hfits, hrest, hround⟩ := hround
          rw [hround]
          have hle := hp.le
          have hframe : IsFrame P e stream (.frame (position stream p) size packet) := by
            refine ⟨hsize, ?_, p.maxBodyLength, ?_⟩
            · unfold position
              omega
            · rw [← List.drop_drop, position, ← hp.pending, ← hrest]
              exact hfirst
          have hreaction := honPacket invoked packet
          cases hthrows : (onPacket invoked packet).throws with
          | true =>
              -- the callback dropped the rest of the stream before it threw
              have hresets : (onPacket invoked packet).resets = true := hreaction.symm.trans hthrows
              obtain ⟨hbuffer, hconsumed⟩ := foldl_call_of_resets hresets p
              simp only [hresets, hthrows, if_true]
              refine ⟨by simp, scanl_valid hp.valid _, Holds.empty hbuffer hconsumed,
                ⟨rfl, rfl, ?_⟩, ?_, by simp⟩
              · have hempty : ((onPacket invoked packet).calls.foldl call p).buffered = 0 := by
                  rw [buffered, hbuffer, List.length_nil, Nat.zero_sub]
                show position stream p + size + (p.buffered - size) = position stream _
                rw [position, position, hempty]
                omega
              · intro ev hev
                rcases List.mem_pair.mp hev with rfl | rfl
                · exact hframe
                · trivial
          | false =>
              have hresets : (onPacket invoked packet).resets = false :=
                hreaction.symm.trans hthrows
              obtain ⟨hbuffer, hconsumed⟩ := foldl_call_of_not_resets hresets p
              set p' := (onPacket invoked packet).calls.foldl call p with hp'
              have hnext : Holds stream { p' with consumed := p'.consumed + size } :=
                hp.advance hfits hbuffer (by rw [hconsumed])
              have hheld : PacketFrameParser.buffered { p' with consumed := p'.consumed + size } =
                  p.buffered - size := by
                unfold buffered
                rw [hbuffer, hconsumed, Nat.sub_sub]
              have hrec := ih _ (by omega) (invoked + 1) hnext hheld
              simp only [hresets, hthrows, Bool.false_eq_true, if_false, List.nil_append]
              refine ⟨hrec.defined, ?_, hrec.holds, ⟨rfl, ?_⟩, ?_, hrec.drained⟩
              · intro q hq
                rcases List.mem_append.mp hq with hq | hq
                · exact scanl_valid hp.valid _ q hq
                · exact hrec.points q hq
              · have hmoved : position stream { p' with consumed := p'.consumed + size } =
                    position stream p + size := by
                  rw [position, position, hheld]
                  omega
                rw [← hmoved]
                exact hrec.tiles
              · intro ev hev
                rcases List.mem_cons.mp hev with rfl | hev
                · exact hframe
                · exact hrec.frames ev hev

/-- The packets handed to the callback. -/
def packets (events : List StreamEvent) : List Packet :=
  events.filterMap fun
    | .frame _ _ packet => some packet
    | .discarded _ _ => none

/-- With a callback that only returns, the rounds are those of `feed`. -/
theorem feedRounds_idle (fed invoked : Nat) {p : PacketFrameParser} (hp : p.Valid) :
    let r := feedRounds P e (fun _ _ => {}) fed invoked p
    match feedLoop P e p.maxBodyLength p.buffer p.consumed with
    | (delivered, none) => packets r.events = delivered ∧ r.stop = .returned false ∧
        r.parser = p.reset
    | (delivered, some c) => packets r.events = delivered ∧ r.stop = .returned true ∧
        r.parser = { p with consumed := c }.compact := by
  intro r
  induction hn : p.buffered using Nat.strongRecOn generalizing p invoked with
  | ind n ih =>
      subst hn
      have hround := feedRounds_eq (P := P) (e := e) (fun _ _ => {}) fed invoked hp
      have hloop := feedLoop_round P e p.maxBodyLength hp
      cases hfirst : P.firstFrame e p.maxBodyLength p.pending with
      | incomplete =>
          have hnext : (P.framing e p.maxBodyLength).next (p.buffer.drop p.consumed) =
              .incomplete := hfirst
          rw [hfirst] at hround
          rw [hnext] at hloop
          rw [hloop]
          have hr : r = _ := hround
          rw [hr]
          exact ⟨rfl, rfl, rfl⟩
      | broken =>
          have hnext : (P.framing e p.maxBodyLength).next (p.buffer.drop p.consumed) =
              .broken := hfirst
          rw [hfirst] at hround
          rw [hnext] at hloop
          rw [hloop]
          have hr : r = _ := hround
          rw [hr]
          exact ⟨rfl, rfl, rfl⟩
      | item packet rest =>
          have hnext : (P.framing e p.maxBodyLength).next (p.buffer.drop p.consumed) =
              .item packet rest := hfirst
          rw [hfirst] at hround
          rw [hnext] at hloop
          obtain ⟨size, hsize, hfits, hrest, hround⟩ := hround
          obtain ⟨c, hlt, hle, hdrop, hloop⟩ := hloop
          -- both advance over the same frame
          obtain rfl : p.consumed + size = c := by
            have hlength := congrArg List.length (hdrop.trans hrest)
            rw [List.length_drop, List.length_drop, length_pending] at hlength
            unfold buffered at hfits hlength
            omega
          have hheld : PacketFrameParser.buffered { p with consumed := p.consumed + size } <
              p.buffered := by
            show p.buffer.length - (p.consumed + size) < p.buffer.length - p.consumed
            omega
          have hrec := ih _ hheld (invoked + 1) (p := { p with consumed := p.consumed + size }) hle rfl
          have hr : r = _ := hround
          rw [hloop, hr]
          rcases hrest' : feedLoop P e p.maxBodyLength p.buffer (p.consumed + size) with
            ⟨delivered, _ | c'⟩
          · simp only [hrest'] at hrec ⊢
            obtain ⟨hpackets, hstop, hparser⟩ := hrec
            exact ⟨congrArg (packet :: ·) hpackets, hstop, hparser⟩
          · simp only [hrest'] at hrec ⊢
            obtain ⟨hpackets, hstop, hparser⟩ := hrec
            exact ⟨congrArg (packet :: ·) hpackets, hstop, hparser⟩

/-- The bytes of the next chunk come behind the ones the parser holds. -/
theorem Holds.extend {p : PacketFrameParser} (h : Holds stream p) (chunk : List UInt8) :
    Holds (stream ++ chunk) { p with buffer := p.buffer ++ chunk } ∧
      position (stream ++ chunk) { p with buffer := p.buffer ++ chunk } = position stream p := by
  have hvalid : p.consumed ≤ p.buffer.length := h.valid
  have hle := h.le
  have hheld : PacketFrameParser.buffered { p with buffer := p.buffer ++ chunk } =
      p.buffered + chunk.length := by
    show (p.buffer ++ chunk).length - p.consumed = p.buffer.length - p.consumed + chunk.length
    rw [List.length_append]
    omega
  have hposition : (stream ++ chunk).length - (p.buffered + chunk.length) =
      stream.length - p.buffered := by
    rw [List.length_append]
    omega
  refine ⟨⟨?_, ?_, ?_⟩, ?_⟩
  · show p.consumed ≤ (p.buffer ++ chunk).length
    rw [List.length_append]
    omega
  · rw [hheld, List.length_append]
    omega
  · rw [hheld, hposition, List.drop_append_of_le_length (by omega), ← h.pending]
    exact List.drop_append_of_le_length hvalid
  · rw [position, hheld, hposition, position]

end PacketFrameParser

namespace Connection

open PacketFrameParser

/-- Delivery at most once: `consumed_` never leaves the buffer, no frame of the stream is
handed to the callback twice, and what is neither delivered nor dropped by a `Reset()` is
pending and, after a `Feed` that returned `true`, short of a frame. -/
structure DeliversOnce (P : PacketHeaderPolicy) (e : Endian) (c : Connection) : Prop where
  inBounds : ∀ p ∈ c.points, p.consumed ≤ p.buffer.length
  once : (starts c.events).Pairwise (· < ·)
  frames : ∀ ev ∈ c.events, IsFrame P e c.stream ev
  noneLost : Tiles 0 c.events (position c.stream c.parser)
  pending : c.parser.pending = c.stream.drop (position c.stream c.parser)
  drained : c.stop = .returned true →
    P.firstFrame e c.parser.maxBodyLength c.parser.pending = .incomplete

/-- The invariant between two `Feed`s. -/
structure Intact (P : PacketHeaderPolicy) (e : Endian) (c : Connection) : Prop where
  defined : c.stop ≠ .undefined
  points : ∀ p ∈ c.points, p.Valid
  holds : Holds c.stream c.parser
  tiles : Tiles 0 c.events (position c.stream c.parser)
  frames : ∀ ev ∈ c.events, IsFrame P e c.stream ev
  drained : c.stop = .returned true →
    P.firstFrame e c.parser.maxBodyLength c.parser.pending = .incomplete

variable {P : PacketHeaderPolicy} {e : Endian} {onPacket : Nat → Packet → Reaction}

/-- `PacketFrameParser.feed` is the `Feed` of a callback that only returns. -/
theorem feed_idle {c : Connection} (hc : c.stop ≠ .undefined) (hp : c.parser.Valid)
    (chunk : List UInt8) :
    (c.feed P e (fun _ _ => {}) chunk).parser = (c.parser.feed P e chunk).2.2 ∧
    (c.feed P e (fun _ _ => {}) chunk).stop = .returned (c.parser.feed P e chunk).2.1 ∧
    packets (c.feed P e (fun _ _ => {}) chunk).events =
      packets c.events ++ (c.parser.feed P e chunk).1 := by
  have hvalid : PacketFrameParser.Valid { c.parser with buffer := c.parser.buffer ++ chunk } := by
    show c.parser.consumed ≤ (c.parser.buffer ++ chunk).length
    rw [List.length_append]
    exact Nat.le_trans hp (Nat.le_add_right _ _)
  have hidle := feedRounds_idle (P := P) (e := e) (c.stream.length + chunk.length)
    (starts c.events).length hvalid
  rw [Connection.feed, if_neg hc, PacketFrameParser.feed]
  show _ ∧ _ ∧ packets (c.events ++ _) = _
  rw [packets, List.filterMap_append]
  rcases hloop : feedLoop P e c.parser.maxBodyLength (c.parser.buffer ++ chunk) c.parser.consumed
    with ⟨delivered, _ | c'⟩
  · simp only [hloop] at hidle ⊢
    obtain ⟨hpackets, hstop, hparser⟩ := hidle
    exact ⟨hparser, hstop, congrArg (packets c.events ++ ·) hpackets⟩
  · simp only [hloop] at hidle ⊢
    obtain ⟨hpackets, hstop, hparser⟩ := hidle
    exact ⟨hparser, hstop, congrArg (packets c.events ++ ·) hpackets⟩

theorem Intact.fresh (P : PacketHeaderPolicy) (e : Endian) (maxBodyLength : Nat) :
    Intact P e { parser := { maxBodyLength := maxBodyLength } } where
  defined := by simp
  points := fun _ hp => absurd hp List.not_mem_nil
  holds := Holds.empty rfl rfl
  tiles := rfl
  frames := fun _ hev => absurd hev List.not_mem_nil
  drained := fun _ => if_pos P.headerSize_pos

/-- One `Feed`. -/
theorem Intact.feed (honPacket : ∀ k a, (onPacket k a).throws = (onPacket k a).resets)
    {c : Connection} (h : Intact P e c) (chunk : List UInt8) :
    Intact P e (c.feed P e onPacket chunk) := by
  obtain ⟨hholds, hposition⟩ := h.holds.extend chunk
  have hrun := feedRounds_delivers (P := P) (e := e) honPacket (starts c.events).length hholds
  rw [List.length_append] at hrun
  rw [Connection.feed, if_neg h.defined]
  refine ⟨hrun.defined, ?_, hrun.holds, ?_, ?_, hrun.drained⟩
  · intro q hq
    rcases List.mem_append.mp hq with hq | hq
    · exact h.points q hq
    · exact hrun.points q hq
  · exact Tiles.append (hposition ▸ hrun.tiles) h.tiles
  · intro ev hev
    rcases List.mem_append.mp hev with hev | hev
    · exact (h.frames ev hev).append chunk
    · exact hrun.frames ev hev

theorem Intact.feeds (honPacket : ∀ k a, (onPacket k a).throws = (onPacket k a).resets)
    (chunks : List (List UInt8)) : ∀ {c : Connection}, Intact P e c →
    Intact P e (chunks.foldl (Connection.feed P e onPacket) c) := by
  induction chunks with
  | nil => exact fun h => h
  | cons chunk chunks ih => exact fun h => ih (h.feed honPacket chunk)

end Connection

/-- A callback that throws exactly where it has called `Reset()`, and sets the limit as it
likes, sees every frame at most once, over any stream in any chunks. -/
theorem feed_delivers_once (P : PacketHeaderPolicy) (e : Endian)
    (onPacket : Nat → Packet → PacketFrameParser.Reaction)
    (honPacket : ∀ k a, (onPacket k a).throws = (onPacket k a).resets) (maxBodyLength : Nat)
    (chunks : List (List UInt8)) :
    (Connection.run P e onPacket maxBodyLength chunks).DeliversOnce P e := by
  have h := Connection.Intact.feeds honPacket chunks (Connection.Intact.fresh P e maxBodyLength)
  obtain ⟨-, hsorted⟩ := h.tiles.starts_sorted h.frames
  exact ⟨h.points, hsorted, h.frames, h.tiles, h.holds.pending, h.drained⟩

/-- A header for an empty body. -/
def emptyPacket : List UInt8 := [1, 0, 0, 0, 0, 0]

/-- A callback that lowers the limit, and drops everything and throws at its second
frame. -/
theorem feed_delivers_once_dropping :
    (Connection.run defaultPacketHeaderPolicy .little
      (fun k _ => if k = 1 then ⟨[.reset, .setMaxBodyLength 4], true⟩ else ⟨[], false⟩) 16
      [emptyPacket ++ emptyPacket, emptyPacket]).DeliversOnce defaultPacketHeaderPolicy .little :=
  feed_delivers_once defaultPacketHeaderPolicy .little _
    (fun k _ => by
      by_cases hk : k = 1
      · rw [if_pos hk]
        rfl
      · rw [if_neg hk]
        rfl) 16 [emptyPacket ++ emptyPacket, emptyPacket]

/-- A callback that throws at its first frame sees that frame again at the next `Feed`;
one that calls `Reset()` and returns leaves `consumed_` behind the buffer. -/
theorem throwing_callback_delivers_twice :
    (Connection.starts (Connection.run defaultPacketHeaderPolicy .little
      (fun k _ => ⟨[], k = 0⟩) 16 [emptyPacket, []]).events = [0, 0] ∧
    ¬ (Connection.run defaultPacketHeaderPolicy .little
      (fun k _ => ⟨[], k = 0⟩) 16 [emptyPacket, []]).DeliversOnce
        defaultPacketHeaderPolicy .little) ∧
    ¬ (Connection.run defaultPacketHeaderPolicy .little
      (fun _ _ => ⟨[.reset], false⟩) 16 [emptyPacket]).DeliversOnce
        defaultPacketHeaderPolicy .little := by
  have htwice : Connection.starts (Connection.run defaultPacketHeaderPolicy .little
      (fun k _ => ⟨[], k = 0⟩) 16 [emptyPacket, []]).events = [0, 0] := by decide +kernel
  refine ⟨⟨htwice, ?_⟩, ?_⟩
  · intro h
    have honce := h.once
    rw [htwice] at honce
    exact absurd honce (by decide)
  · intro h
    have hpoints := h.inBounds
    revert hpoints
    decide +kernel

end MemoryPack
