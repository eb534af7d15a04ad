import MemoryPack.Samples.CppRequests
import MemoryPack.Wire.Packet

/-!
# What a client of the C++ server gets

Whatever a client sends, in whatever pieces, the server sends the answers to the requests in
front of the first frame that it refuses, in order, and no more (`run_answers`). A client
that keeps to the limits gets an answer to every request, and reads it back
(`requests_answered`).
-/

namespace MemoryPack.CppServer

open Effect LittleEndian

/-! ## The server reads a stream as its frames -/

section Chunks

variable (H : Host) {p : Peer}

/-- A connection that is closed, or whose process is gone, ignores what comes. -/
theorem foldl_onPacket_idle (h : ¬ (p.alive ∧ ¬ p.crashed)) : ∀ packets : List Packet,
    packets.foldl (onPacket H) p = p
  | [] => rfl
  | packet :: packets => by
      rw [List.foldl_cons, onPacket, if_neg h]
      exact foldl_onPacket_idle h packets

/-- However a stream arrives, its frames are handled one after the other. -/
theorem run_peer (chunks : List (List UInt8)) : ∀ c : Connection, c.parser.Valid →
    c.parser.maxBodyLength = maxBodyLength →
    (defaultPacketHeaderPolicy.framing .little maxBodyLength).next c.parser.pending = .incomplete →
      (Connection.run H c chunks).peer =
        (frames (c.parser.pending ++ chunks.flatten)).foldl (onPacket H) c.peer := by
  induction chunks with
  | nil =>
      intro c _ _ hnext
      rw [List.flatten_nil, List.append_nil, frames, Framing.split_incomplete _ hnext]
      rfl
  | cons chunk chunks ih =>
      intro c hvalid hmax hnext
      rw [Connection.run]
      by_cases hopen : c.peer.alive ∧ ¬ c.peer.crashed
      · rw [if_pos hopen, Connection.feed, H.little]
        obtain ⟨hsome, hnone⟩ :=
          PacketFrameParser.feed_eq defaultPacketHeaderPolicy .little hvalid chunk
        rw [hmax] at hsome hnone
        obtain ⟨happend, hbroken⟩ :=
          (defaultPacketHeaderPolicy.framing .little maxBodyLength).split_append
            (c.parser.pending ++ chunk) chunks.flatten
        rw [List.flatten_cons, ← List.append_assoc, frames]
        rcases hsplit : (defaultPacketHeaderPolicy.framing .little maxBodyLength).split
          (c.parser.pending ++ chunk) with ⟨packets, _ | rest⟩
        · -- the frames in front of the broken header have been handled
          rw [hnone _ hsplit, hbroken _ hsplit]
        · obtain ⟨parser, hfeed, hvalid', rfl, hmax'⟩ := hsome _ _ hsplit
          have hnext' := Framing.next_of_split _ _ _ (congrArg Prod.snd hsplit)
          rw [hfeed, happend _ _ hsplit, List.foldl_append]
          exact ih ⟨parser, packets.foldl (onPacket H) c.peer⟩ hvalid' hmax' hnext'
      · rw [if_neg hopen, foldl_onPacket_idle H hopen]

theorem run_fresh (chunks : List (List UInt8)) :
    (Connection.run H {} chunks).peer =
      (frames chunks.flatten).foldl (onPacket H) { writer := .ofVector [] } :=
  run_peer H chunks {} (Nat.le_refl 0) rfl rfl

end Chunks

/-! ## One answer -/

/-- Between two packets the writer appends to a vector. -/
structure Ready (w : MemoryPackWriter) : Prop where
  inv : w.Inv
  vector : w.vec.isSome = true

theorem Ready.span {w : MemoryPackWriter} (h : Ready w) :
    w.vec = some w.getSpan ∧ w.data = w.getSpan ∧ w.size = w.getSpan.length := by
  obtain ⟨v, hv⟩ := Option.isSome_iff_exists.mp h.vector
  have hspan : w.getSpan = v := by
    simp [MemoryPackWriter.getSpan, MemoryPackWriter.data, MemoryPackWriter.size, hv]
  rw [hspan]
  simp [MemoryPackWriter.data, MemoryPackWriter.size, hv]

theorem ready_of_mode {w : MemoryPackWriter} (hinv : w.Inv) (hmode : w.mode = .vector) :
    Ready w := by
  refine ⟨hinv, ?_⟩
  unfold MemoryPackWriter.mode at hmode
  split at hmode
  · next hv => rw [hv]; rfl
  · simp at hmode
  · simp at hmode

section Answer

variable (H : Host) {p : Peer}

/-- `SendAll`: a prefix of the data goes out, all of it where no `send` fails. -/
theorem sendAll_spec (data : List UInt8) : ∀ p : Peer,
    ∃ taken sends, taken <+: data ∧
      (sendAll H data p).1 = { p with sent := p.sent ++ taken, sends := sends } ∧
      ((sendAll H data p).2 = true → taken = data) ∧
      ((∀ call n, 0 < n → 0 < H.send call n) → (sendAll H data p).2 = true) := by
  induction hn : data.length using Nat.strongRecOn generalizing data with
  | ind n ih =>
      subst hn
      intro p
      rw [sendAll]
      by_cases hdata : data = []
      · rw [dif_pos hdata]
        exact ⟨[], p.sends, List.nil_prefix, by rw [List.append_nil], fun _ => hdata.symm,
          fun _ => rfl⟩
      · have hpos := List.length_pos_iff.mpr hdata
        rw [dif_neg hdata]
        by_cases htaken : H.send p.sends data.length = 0
        · simp only [dif_pos htaken]
          refine ⟨[], p.sends + 1, List.nil_prefix, by rw [List.append_nil], by simp,
            fun hsend => ?_⟩
          exact absurd htaken (hsend _ _ hpos).ne'
        · simp only [dif_neg htaken]
          have hless : (data.drop (H.send p.sends data.length)).length < data.length := by
            rw [List.length_drop]
            omega
          obtain ⟨taken, sends, hprefix, hpeer, htrue, hsend⟩ := ih _ hless _ rfl
            { p with sent := p.sent ++ data.take (H.send p.sends data.length),
                     sends := p.sends + 1 }
          refine ⟨data.take (H.send p.sends data.length) ++ taken, sends, ?_, ?_, ?_, hsend⟩
          · conv_rhs => rw [← List.take_append_drop (H.send p.sends data.length) data]
            exact (List.prefix_append_right_inj _).mpr hprefix
          · rw [hpeer, List.append_assoc]
          · intro h
            rw [htrue h, List.take_append_drop]

/-- `SendPacket` sends the frame of a value that can be written, whatever the writer held. -/
theorem sendPacket_eq (hw : Ready p.writer) {x : Outgoing}
    (hx : Encodable schema x.ty x.value) : ∃ w, Ready w ∧ sendPacket H x.id x.ty x.value p =
      ((sendAll H x.frame { p with writer := w }).1,
        .ret (sendAll H x.frame { p with writer := w }).2) := by
  obtain ⟨cleared, hclear, hinv, hview⟩ := Writer.clear_view (B := H.build) hw.inv
  have hmode : cleared.mode = .vector := by
    have hmode : cleared.mode = p.writer.mode := congrArg AppendList.mode hview
    obtain ⟨hv, -, -⟩ := hw.span
    rw [hmode, MemoryPackWriter.mode, hv]
  have hbytes : cleared.getSpan = [] := congrArg AppendList.bytes hview
  have herror : cleared.error = .none := congrArg AppendList.error hview
  obtain ⟨hvec, -, -⟩ := (ready_of_mode hinv hmode).span
  -- the room for the header
  set placed : MemoryPackWriter := { cleared with vec := some (List.replicate 6 0) } with hplaced
  have hinv' : placed.Inv := ⟨hinv.owned, hinv.fixed, hinv.storage⟩
  have hready' : Ready placed := ⟨hinv', rfl⟩
  have hspan : placed.getSpan = List.replicate 6 0 := rfl
  have hemits := Emits.write H.little schema x.value x.ty hx
  obtain ⟨hout, hwritten⟩ := hemits.room placed hinv' trivial
  have hinv'' := hemits.inv placed hinv'
  rcases hrun : Writer.write schema x.ty x.value H.build placed with ⟨o, w, l⟩
  rw [hrun] at hout hwritten hinv''
  rw [AppendList.record_none] at hwritten
  have hready'' : Ready w := by
    refine ready_of_mode hinv'' ?_
    exact congrArg AppendList.mode hwritten
  have hwspan : w.getSpan = List.replicate 6 0 ++ encode schema x.ty x.value :=
    congrArg AppendList.bytes hwritten
  have hwerror : w.failed = false := by
    have he : w.error = cleared.error := congrArg AppendList.error hwritten
    rw [MemoryPackWriter.failed, he, herror]
    rfl
  obtain ⟨-, hdata, hsize⟩ := hready''.span
  have hbody :
      w.size - defaultPacketHeaderPolicy.headerSize = (encode schema x.ty x.value).length := by
    rw [hsize, hwspan, List.length_append, List.length_replicate]
    exact Nat.add_sub_cancel_left _ _
  have hframe : overwrite w.data 0 (defaultPacketHeaderPolicy.write H.build.endian x.id.toUInt16
      (asInt32 (encode schema x.ty x.value).length)) = x.frame := by
    rw [hdata, hwspan, H.little]
    exact overwrite_header [] _ _ (Message.length_header _ _ _)
  refine ⟨{ w with vec := some x.frame }, ⟨⟨hinv''.owned, hinv''.fixed, hinv''.storage⟩,
    rfl⟩, ?_⟩
  have hresize : cleared.vec.map (fun v => resize v defaultPacketHeaderPolicy.headerSize) =
      some (List.replicate 6 0) := by
    rw [hvec, hbytes]
    rfl
  cases hout
  simp only [sendPacket, hclear, hresize, ← hplaced, hrun, hwerror, Bool.false_eq_true, if_false,
    hbody, hframe]

end Answer

/-! ## A whole connection -/

/-- No call of `send` fails. -/
def Host.Sends (H : Host) : Prop := ∀ call n, 0 < n → 0 < H.send call n

/-- A connection that is served. -/
structure Peer.Open (p : Peer) : Prop where
  alive : p.alive = true
  crashed : p.crashed = false
  ready : Ready p.writer

section Run

variable (H : Host) {p : Peer}

/-- What the connection does with some frames: `answers` go out, in order. -/
structure Answered (p : Peer) (packets : List Packet) (answers : List UInt8) (p' : Peer) :
    Prop where
  crashed : p'.crashed = false
  sent : ∃ taken, taken <+: answers ∧ p'.sent = p.sent ++ taken
  all : p'.alive = true → p'.sent = p.sent ++ answers ∧ (served H packets).length = packets.length
  sends : H.Sends → p'.sent = p.sent ++ answers ∧
    ((served H packets).length = packets.length → p'.alive = true)

theorem onPacket_refused (hp : p.Open) {packet : Packet} (h : accepts H packet = none) :
    onPacket H p packet = { p with alive := false } := by
  rw [onPacket, if_pos ⟨hp.alive, by simp [hp.crashed]⟩, handlePacket_eq, h, respond]

/-- A request: the answer goes out, or a `send` fails and the connection closes. -/
theorem onPacket_answered (hp : p.Open) {packet : Packet} {q : Request}
    (h : accepts H packet = some q) :
    ∃ taken, taken <+: (q.reply (H.utcNowTicks p.readings)).frame ∧
      (onPacket H p packet).sent = p.sent ++ taken ∧ (onPacket H p packet).crashed = false ∧
      ((onPacket H p packet).alive = true → (onPacket H p packet).Open ∧
        (onPacket H p packet).readings = p.readings + q.readings ∧
        taken = (q.reply (H.utcNowTicks p.readings)).frame) ∧
      (H.Sends → (onPacket H p packet).alive = true) := by
  have hsendable := reply_sendable (accepts_decoded H h) (utcNowTicks_lt H p.readings)
  obtain ⟨w, hw, hsend⟩ := sendPacket_eq H (p := { p with readings := p.readings + q.readings })
    hp.ready hsendable.encodable
  obtain ⟨taken, sends, hprefix, hpeer, htrue, hok⟩ := sendAll_spec H
    (q.reply (H.utcNowTicks p.readings)).frame
    { p with readings := p.readings + q.readings, writer := w }
  rw [onPacket, if_pos ⟨hp.alive, by simp [hp.crashed]⟩, handlePacket_eq, h, respond, hsend]
  cases hresult : (sendAll H (q.reply (H.utcNowTicks p.readings)).frame
      { p with readings := p.readings + q.readings, writer := w }).2 with
  | true =>
      rw [hpeer]
      exact ⟨taken, hprefix, rfl, hp.crashed,
        fun _ => ⟨⟨hp.alive, hp.crashed, hw⟩, rfl, htrue hresult⟩, fun _ => hp.alive⟩
  | false =>
      rw [hpeer]
      refine ⟨taken, hprefix, rfl, hp.crashed, fun halive => by simp at halive, fun hsends => ?_⟩
      exact absurd (hresult.symm.trans (hok hsends)) (by decide)

theorem foldl_answered (packets : List Packet) : ∀ p : Peer, p.Open →
    Answered H p packets ((replies H p.readings (served H packets)).map Outgoing.frame).flatten
      (packets.foldl (onPacket H) p) := by
  induction packets with
  | nil =>
      intro p hp
      exact ⟨hp.crashed, ⟨[], List.prefix_refl _, (List.append_nil _).symm⟩,
        fun _ => ⟨(List.append_nil _).symm, rfl⟩,
        fun _ => ⟨(List.append_nil _).symm, fun _ => hp.alive⟩⟩
  | cons packet packets ih =>
      intro p hp
      rw [List.foldl_cons]
      cases haccepts : accepts H packet with
      | none =>
          have hserved : served H (packet :: packets) = [] := by rw [served, haccepts]
          rw [onPacket_refused H hp haccepts, foldl_onPacket_idle H (by simp), hserved]
          refine ⟨hp.crashed, ⟨[], List.prefix_refl _, (List.append_nil _).symm⟩, by simp,
            fun _ => ?_⟩
          exact ⟨(List.append_nil _).symm, by simp [hserved]⟩
      | some q =>
          have hserved : served H (packet :: packets) = q :: served H packets := by
            rw [served, haccepts]
          obtain ⟨taken, hprefix, hsent, hcrashed, halive, hsends⟩ :=
            onPacket_answered H hp haccepts
          rw [hserved, replies, List.map_cons, List.flatten_cons]
          by_cases hopen : (onPacket H p packet).alive = true
          · obtain ⟨hp', hreadings, rfl⟩ := halive hopen
            have hrest := ih _ hp'
            rw [hreadings] at hrest
            refine ⟨hrest.crashed, ?_, fun h => ?_, fun h => ?_⟩
            · obtain ⟨more, hmore, hsent'⟩ := hrest.sent
              refine ⟨_, (List.prefix_append_right_inj _).mpr hmore, ?_⟩
              rw [hsent', hsent, List.append_assoc]
            · obtain ⟨hsent', hall⟩ := hrest.all h
              refine ⟨by rw [hsent', hsent, List.append_assoc], ?_⟩
              rw [hserved, List.length_cons, List.length_cons, hall]
            · obtain ⟨hsent', hall⟩ := hrest.sends h
              refine ⟨by rw [hsent', hsent, List.append_assoc], fun hlen => hall ?_⟩
              rw [hserved] at hlen
              exact Nat.succ.inj hlen
          · rw [foldl_onPacket_idle H fun h => hopen h.1]
            refine ⟨hcrashed, ⟨taken, hprefix.trans (List.prefix_append _ _), hsent⟩,
              fun h => absurd h hopen, fun h => absurd (hsends h) hopen⟩

theorem run_answered (chunks : List (List UInt8)) :
    Answered H { writer := .ofVector [] } (frames chunks.flatten) (answers H chunks.flatten)
      (Connection.run H {} chunks).peer := by
  rw [run_fresh]
  exact foldl_answered H _ _ ⟨rfl, rfl, MemoryPackWriter.inv_ofVector [], rfl⟩

end Run

/-! ## The client's end -/

/-- A client that takes bodies up to the default 8 MiB finds these packets in what it receives,
and nothing else, and reads the value of each. -/
def Receives (B : Build) (received : List (List UInt8)) (xs : List Outgoing) : Prop :=
  (∃ parser, PacketFrameParser.feedAll defaultPacketHeaderPolicy B.endian
      { maxBodyLength := 8 * 1024 * 1024 } received =
        (xs.map fun x => (x.id.toUInt16, encode schema x.ty x.value), true, parser) ∧
      parser.buffered = 0) ∧
    ∀ x ∈ xs, (deserialize schema x.ty B { data := encode schema x.ty x.value }).out = .ret x.value

section Client

variable {B : Build} {xs : List Outgoing}

/-- The packet, as the codec writes it. -/
def Outgoing.message (x : Outgoing) (hB : B.endian = .little) (hx : x.Sendable) :
    Message schema B where
  id := x.id.toUInt16
  ty := x.ty
  value := x.value
  body := encode schema x.ty x.value
  serialized := serialize_eq_encode (.inl hB) hx.encodable

theorem frame_message (hB : B.endian = .little) {x : Outgoing} (hx : x.Sendable) :
    (x.message hB hx).frame = x.frame := by
  rw [Message.frame, hB]
  rfl

/-- The frames of sent packets are these packets. -/
theorem split_outgoing {limit : Nat} (hlimit : maxBodyLength ≤ limit) :
    ∀ {xs : List Outgoing}, (∀ x ∈ xs, x.Sendable) →
      (defaultPacketHeaderPolicy.framing .little limit).split (xs.map Outgoing.frame).flatten =
        (xs.map fun x => (x.id.toUInt16, encode schema x.ty x.value), some [])
  | [], _ => Framing.split_incomplete _ rfl
  | x :: xs, hxs => by
      obtain ⟨hx, hrest⟩ := List.forall_mem_cons.mp hxs
      have hB : (⟨true, .little, .w64, 0⟩ : Build).endian = .little := rfl
      have hfit : (encode schema x.ty x.value).length < 2 ^ 31 :=
        Nat.lt_of_le_of_lt hx.length (by norm_num [maxBodyLength])
      have hnext := Message.next_frame (m := x.message hB hx) (hx.length.trans hlimit) hfit
        (xs.map Outgoing.frame).flatten
      rw [frame_message hB hx] at hnext
      rw [List.map_cons, List.map_cons, List.flatten_cons, Framing.split_item _ hnext,
        split_outgoing hlimit hrest]
      rfl

theorem deserialize_outgoing (hB : B.endian = .little) {x : Outgoing} (hx : x.Sendable) :
    (deserialize schema x.ty B { data := encode schema x.ty x.value }).out = .ret x.value := by
  have hrec := recoverable_of_lossless schema_lossless x.value x.ty hx.lossless hx.encodable
  have hbits : 2 ^ 32 ≤ B.sizeMod := by
    unfold Build.sizeMod
    cases B.size <;> norm_num [SizeWidth.bits]
  have hlength := hx.length
  have hsize : (encode schema x.ty x.value ++ []).length < B.sizeMod := by
    rw [List.append_nil]
    unfold maxBodyLength at hlength
    omega
  obtain ⟨l, hrun⟩ := deserialize_encode (.inl hB) schema_rewritable.shaped hx.encodable hrec
    hx.nest hsize
  rw [List.append_nil] at hrun
  rw [hrun]

theorem receives_of_sendable (hB : B.endian = .little) (hxs : ∀ x ∈ xs, x.Sendable)
    {received : List (List UInt8)} (h : received.flatten = (xs.map Outgoing.frame).flatten) :
    Receives B received xs := by
  have hlimit : maxBodyLength ≤ 8 * 1024 * 1024 := by norm_num [maxBodyLength]
  have hsplit := split_outgoing hlimit hxs
  rw [← h] at hsplit
  obtain ⟨parser, hrun, -, hpending, -⟩ :=
    (feedAll_fresh defaultPacketHeaderPolicy .little (8 * 1024 * 1024) received).1 _ _ hsplit
  refine ⟨⟨parser, hB ▸ hrun, ?_⟩, fun x hx => deserialize_outgoing hB (hxs x hx)⟩
  rw [← PacketFrameParser.length_pending, hpending]
  rfl

theorem replies_sendable (H : Host) : ∀ (k : Nat) {qs : List Request}, (∀ q ∈ qs, q.Decoded) →
    ∀ x ∈ replies H k qs, x.Sendable
  | _, [], _ => by simp [replies]
  | k, q :: qs, hqs => by
      obtain ⟨hq, hrest⟩ := List.forall_mem_cons.mp hqs
      rw [replies]
      exact List.forall_mem_cons.mpr
        ⟨reply_sendable hq (utcNowTicks_lt H k), replies_sendable H (k + q.readings) hrest⟩

theorem served_decoded (H : Host) : ∀ (packets : List Packet), ∀ q ∈ served H packets, q.Decoded
  | [] => by simp [served]
  | packet :: packets => by
      rw [served]
      cases haccepts : accepts H packet with
      | none => simp
      | some q =>
          exact List.forall_mem_cons.mpr ⟨accepts_decoded H haccepts, served_decoded H packets⟩

end Client

/-- Whatever a client sends, in whatever pieces and however `send` behaves: no exception ends
the process; what goes out are the answers to the requests in front of the first frame that
is refused, in order, to the last byte where no `send` fails; the connection stays open
only while every frame was served. The answers are read back by any client. -/
theorem run_answers (H : Host) (chunks : List (List UInt8)) :
    (Connection.run H {} chunks).peer.crashed = false ∧
    (Connection.run H {} chunks).peer.sent <+: answers H chunks.flatten ∧
    ((Connection.run H {} chunks).peer.alive = true →
      (Connection.run H {} chunks).peer.sent = answers H chunks.flatten ∧
      (served H (frames chunks.flatten)).length = (frames chunks.flatten).length) ∧
    (H.Sends → (Connection.run H {} chunks).peer.sent = answers H chunks.flatten ∧
      ((served H (frames chunks.flatten)).length = (frames chunks.flatten).length →
        (Connection.run H {} chunks).peer.alive = true)) ∧
    ∀ B : Build, B.endian = .little → ∀ received : List (List UInt8),
      received.flatten = answers H chunks.flatten →
        Receives B received (replies H 0 (served H (frames chunks.flatten))) := by
  have hrun := run_answered H chunks
  refine ⟨hrun.crashed, ?_, fun h => ?_, fun h => ?_, fun B hB received hreceived => ?_⟩
  · obtain ⟨taken, hprefix, hsent⟩ := hrun.sent
    rw [hsent]
    exact hprefix
  · exact hrun.all h
  · exact hrun.sends h
  · exact receives_of_sendable hB (replies_sendable H 0 (served_decoded H _)) hreceived

/-- A client that keeps to the limits gets an answer to each of its requests, whatever the
pieces its bytes arrive in, and in whatever pieces the answers arrive it reads back their
values, in the order of the requests. -/
theorem requests_answered (H : Host) (hsends : H.Sends) {qs : List Request}
    (hqs : ∀ q ∈ qs, q.WithinLimits) {chunks : List (List UInt8)}
    (hchunks : chunks.flatten = (qs.map fun q => q.outgoing.frame).flatten) :
    (Connection.run H {} chunks).peer.alive = true ∧
    (Connection.run H {} chunks).peer.crashed = false ∧
    ∀ B : Build, B.endian = .little → ∀ received : List (List UInt8),
      received.flatten = (Connection.run H {} chunks).peer.sent →
        Receives B received (replies H 0 qs) := by
  have hsendable : ∀ x ∈ qs.map Request.outgoing, x.Sendable := by
    intro x hx
    obtain ⟨q, hq, rfl⟩ := List.mem_map.mp hx
    exact outgoing_sendable (hqs q hq)
  have hframes : frames chunks.flatten = qs.map fun q =>
      (q.outgoing.id.toUInt16, encode schema q.outgoing.ty q.outgoing.value) := by
    have hsplit := split_outgoing (Nat.le_refl maxBodyLength) hsendable
    rw [List.map_map, List.map_map] at hsplit
    rw [frames, hchunks]
    exact congrArg Prod.fst hsplit
  have hserved : served H (frames chunks.flatten) = qs := by
    rw [hframes, served_outgoing H hqs]
  have hrun := run_answered H chunks
  obtain ⟨hsent, halive⟩ := hrun.sends hsends
  refine ⟨halive ?_, hrun.crashed, fun B hB received hreceived => ?_⟩
  · rw [hserved, hframes, List.length_map]
  · rw [hsent, answers, hserved] at hreceived
    exact receives_of_sendable hB
      (replies_sendable H 0 fun q hq => (hqs q hq).decoded) hreceived

/-- A machine whose `send` takes at most five bytes at a time. -/
def slowHost : Host where
  build := ⟨false, .little, .w64, 0⟩
  little := rfl
  micros := fun reading => reading
  send := fun _ n => min n 5
  send_le := fun _ _ => Nat.min_le_left _ _

/-- One request of each kind. -/
def threeRequests : List Request := [.echo 7 [0x61, 0x62], .sum [1, 2], .spawn 3]

theorem threeRequests_withinLimits : ∀ q ∈ threeRequests, q.WithinLimits := by
  simp [threeRequests, Request.WithinLimits]

/-- Three requests that arrive byte by byte. -/
theorem requests_answered_threeRequests :
    (Connection.run slowHost {} ((threeRequests.map fun q => q.outgoing.frame).flatten.map
      fun b => [b])).peer.alive = true :=
  (requests_answered slowHost (fun _ _ hn => lt_min hn (by decide)) threeRequests_withinLimits
    (List.flatMap_singleton' _)).1

end MemoryPack.CppServer
