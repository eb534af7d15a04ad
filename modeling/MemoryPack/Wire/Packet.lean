import MemoryPack.Core.Packet
import MemoryPack.Lib.Framing
import MemoryPack.Wire.Reads
import MemoryPack.Wire.Serialize
import MemoryPack.Writer.Refinement

/-!
# Reassembly does not depend on chunking

The frames of a stream are a framing: `PacketHeaderPolicy.framing` reads one frame at
the front. The parser keeps the bytes behind the last complete frame, with a
consumed part in front of them that compaction may or may not have dropped;
`pending` is the part that counts. One `Feed` turns `pending` and a chunk into the
frames of both together, so a run is the split of the whole stream.
-/

namespace MemoryPack

open Effect LittleEndian

/-! ## The frames of a stream -/

/-- The first frame of a stream, with bodies of at most `maxBodyLength` bytes. -/
def PacketHeaderPolicy.firstFrame (P : PacketHeaderPolicy) (e : Endian) (maxBodyLength : Nat)
    (x : List UInt8) : Framing.Frame Packet UInt8 :=
  if x.length < P.headerSize then .incomplete
  else if (P.read e x).2 < 0 ∨ (P.read e x).2.toNat > maxBodyLength then .broken
  else if x.length < P.headerSize + (P.read e x).2.toNat then .incomplete
  else .item ((P.read e x).1, (x.drop P.headerSize).take (P.read e x).2.toNat)
    (x.drop (P.headerSize + (P.read e x).2.toNat))

namespace PacketHeaderPolicy

variable (P : PacketHeaderPolicy) {e : Endian} {maxBodyLength : Nat} {x y : List UInt8}

theorem read_append (h : P.headerSize ≤ x.length) : P.read e (x ++ y) = P.read e x := by
  rw [← P.read_take e (x ++ y), List.take_append_of_le_length h, P.read_take]

theorem firstFrame_append_item {a : Packet} {rest : List UInt8}
    (h : P.firstFrame e maxBodyLength x = .item a rest) (y : List UInt8) :
    P.firstFrame e maxBodyLength (x ++ y) = .item a (rest ++ y) := by
  unfold firstFrame at h ⊢
  split at h
  · simp at h
  · next h₁ =>
      have hle : P.headerSize ≤ x.length := Nat.not_lt.mp h₁
      rw [P.read_append hle, List.length_append]
      split at h
      · simp at h
      · next h₂ =>
          split at h
          · simp at h
          · next h₃ =>
              obtain ⟨rfl, rfl⟩ := Framing.Frame.item.inj h
              have hbody : (P.read e x).2.toNat ≤ (x.drop P.headerSize).length := by
                rw [List.length_drop]
                omega
              rw [if_neg (by omega), if_neg h₂, if_neg (by omega),
                List.drop_append_of_le_length hle, List.take_append_of_le_length hbody,
                List.drop_append_of_le_length (by omega)]

theorem length_body_le {a : Packet} {rest : List UInt8}
    (h : P.firstFrame e maxBodyLength x = .item a rest) : a.2.length ≤ (P.read e x).2.toNat := by
  unfold firstFrame at h
  split at h
  · simp at h
  · split at h
    · simp at h
    · split at h
      · simp at h
      · obtain ⟨rfl, -⟩ := Framing.Frame.item.inj h
        exact List.length_take_le _ _

theorem firstFrame_append_broken (h : P.firstFrame e maxBodyLength x = .broken)
    (y : List UInt8) : P.firstFrame e maxBodyLength (x ++ y) = .broken := by
  unfold firstFrame at h ⊢
  split at h
  · simp at h
  · next h₁ =>
      rw [P.read_append (Nat.not_lt.mp h₁), List.length_append, if_neg (by omega)]
      split at h
      · next h₂ => rw [if_pos h₂]
      · split at h
        · simp at h
        · simp at h

/-- The frames of a stream, up to the first header whose length is negative or above
`maxBodyLength`. -/
def framing (e : Endian) (maxBodyLength : Nat) : Framing Packet UInt8 where
  next := P.firstFrame e maxBodyLength
  shrinks := by
    intro x a rest h
    have hpos := P.headerSize_pos
    unfold firstFrame at h
    split at h
    · simp at h
    · split at h
      · simp at h
      · split at h
        · simp at h
        · obtain ⟨-, rfl⟩ := Framing.Frame.item.inj h
          rw [List.length_drop]
          omega
  item_append := P.firstFrame_append_item
  broken_append := P.firstFrame_append_broken

end PacketHeaderPolicy

/-! ## One `Feed` -/

namespace PacketFrameParser

variable (P : PacketHeaderPolicy) (e : Endian)

/-- The bytes held while waiting for the rest of a frame. -/
def pending (p : PacketFrameParser) : List UInt8 := p.buffer.drop p.consumed

/-- `consumed_` lies in the buffer. -/
def Valid (p : PacketFrameParser) : Prop := p.consumed ≤ p.buffer.length

theorem length_pending (p : PacketFrameParser) : p.pending.length = p.buffered := List.length_drop

/-- All three compaction regimes keep the pending bytes. -/
theorem pending_compact (p : PacketFrameParser) : p.compact.pending = p.pending := by
  unfold compact
  split
  · rfl
  · split
    · next h => simp [pending, h]
    · split
      · simp [pending]
      · rfl

theorem valid_compact {p : PacketFrameParser} (h : p.Valid) : p.compact.Valid := by
  unfold compact
  split
  · exact h
  · split
    · exact Nat.le_refl 0
    · split
      · exact Nat.zero_le _
      · exact h

@[simp] theorem maxBodyLength_compact (p : PacketFrameParser) :
    p.compact.maxBodyLength = p.maxBodyLength := by
  unfold compact
  split
  · rfl
  · split
    · rfl
    · split
      · rfl
      · rfl

/-- One round of the loop, by what the bytes behind `consumed_` start with. -/
theorem feedLoop_round (maxBodyLength : Nat) {buffer : List UInt8} {consumed : Nat}
    (h : consumed ≤ buffer.length) :
    match (P.framing e maxBodyLength).next (buffer.drop consumed) with
    | .item a rest => ∃ c, consumed < c ∧ c ≤ buffer.length ∧ buffer.drop c = rest ∧
        feedLoop P e maxBodyLength buffer consumed =
          (a :: (feedLoop P e maxBodyLength buffer c).1, (feedLoop P e maxBodyLength buffer c).2)
    | .incomplete => feedLoop P e maxBodyLength buffer consumed = ([], some consumed)
    | .broken => feedLoop P e maxBodyLength buffer consumed = ([], none) := by
  show match P.firstFrame e maxBodyLength (buffer.drop consumed) with
    | .item a rest => _
    | .incomplete => _
    | .broken => _
  unfold PacketHeaderPolicy.firstFrame
  rw [List.length_drop, feedLoop]
  by_cases h₁ : buffer.length - consumed < P.headerSize
  · rw [if_pos h₁, if_pos h₁]
  · rw [if_neg h₁, if_neg h₁]
    by_cases h₂ : (P.read e (buffer.drop consumed)).2 < 0 ∨
        (P.read e (buffer.drop consumed)).2.toNat > maxBodyLength
    · rw [if_pos h₂]
      simp only [if_pos h₂]
    · rw [if_neg h₂]
      simp only [if_neg h₂]
      by_cases h₃ : buffer.length - consumed <
          P.headerSize + (P.read e (buffer.drop consumed)).2.toNat
      · rw [if_pos h₃]
        simp only [if_pos h₃]
      · rw [if_neg h₃]
        simp only [if_neg h₃]
        have hpos := P.headerSize_pos
        refine ⟨consumed + (P.headerSize + (P.read e (buffer.drop consumed)).2.toNat), ?_, ?_, ?_, ?_⟩
        · omega
        · omega
        · rw [List.drop_drop]
        · rw [List.drop_drop]

/-- What the loop has to do with the bytes behind `consumed_`: deliver their frames,
and stop in front of what is left. -/
def LoopSplits (F : Framing Packet UInt8) (buffer x : List UInt8)
    (r : List Packet × Option Nat) : Prop :=
  r.1 = (F.split x).1 ∧
    match (F.split x).2 with
    | some rest => ∃ c, r.2 = some c ∧ c ≤ buffer.length ∧ buffer.drop c = rest
    | none => r.2 = none

theorem feedLoop_splits (maxBodyLength : Nat) {buffer : List UInt8} {consumed : Nat}
    (h : consumed ≤ buffer.length) :
    LoopSplits (P.framing e maxBodyLength) buffer (buffer.drop consumed)
      (feedLoop P e maxBodyLength buffer consumed) := by
  induction hn : buffer.length - consumed using Nat.strongRecOn generalizing consumed with
  | ind n ih =>
      subst hn
      have hround := feedLoop_round P e maxBodyLength h
      unfold LoopSplits
      cases hnext : (P.framing e maxBodyLength).next (buffer.drop consumed) with
      | item a rest =>
          rw [hnext] at hround
          obtain ⟨c, hlt, hle, hdrop, hloop⟩ := hround
          have hrec := ih (buffer.length - c) (by omega) hle rfl
          rw [hdrop] at hrec
          rw [Framing.split_item _ hnext, hloop]
          exact ⟨congrArg (a :: ·) hrec.1, hrec.2⟩
      | incomplete =>
          rw [hnext] at hround
          rw [Framing.split_incomplete _ hnext, hround]
          exact ⟨rfl, consumed, rfl, h, rfl⟩
      | broken =>
          rw [hnext] at hround
          rw [Framing.split_broken _ hnext, hround]
          exact ⟨rfl, rfl⟩

/-- One `Feed` delivers the frames of the pending bytes and the chunk together. -/
theorem feed_eq {p : PacketFrameParser} (hp : p.Valid) (chunk : List UInt8) :
    (∀ packets rest, (P.framing e p.maxBodyLength).split (p.pending ++ chunk) =
        (packets, some rest) →
      ∃ p', p.feed P e chunk = (packets, true, p') ∧ p'.Valid ∧ p'.pending = rest ∧
        p'.maxBodyLength = p.maxBodyLength) ∧
    (∀ packets, (P.framing e p.maxBodyLength).split (p.pending ++ chunk) = (packets, none) →
      p.feed P e chunk = (packets, false, p.reset)) := by
  have hle : p.consumed ≤ (p.buffer ++ chunk).length := by
    rw [List.length_append]
    exact Nat.le_trans hp (Nat.le_add_right _ _)
  have hloop := feedLoop_splits P e p.maxBodyLength hle
  have hpending : (p.buffer ++ chunk).drop p.consumed = p.pending ++ chunk :=
    List.drop_append_of_le_length hp
  rw [hpending] at hloop
  unfold LoopSplits at hloop
  constructor
  · intro packets rest hsplit
    rw [hsplit] at hloop
    obtain ⟨hpackets, c, hsome, hc, hdrop⟩ := hloop
    have hrun : feedLoop P e p.maxBodyLength (p.buffer ++ chunk) p.consumed = (packets, some c) :=
      Prod.ext hpackets hsome
    have hvalid : Valid { p with buffer := p.buffer ++ chunk, consumed := c } := hc
    refine ⟨{ p with buffer := p.buffer ++ chunk, consumed := c }.compact, ?_,
      valid_compact hvalid, ?_, ?_⟩
    · simp only [feed, hrun]
    · rw [pending_compact]
      exact hdrop
    · rw [maxBodyLength_compact]
  · intro packets hsplit
    rw [hsplit] at hloop
    have hrun : feedLoop P e p.maxBodyLength (p.buffer ++ chunk) p.consumed = (packets, none) :=
      Prod.ext hloop.1 hloop.2
    simp only [feed, hrun]
    rfl

/-! ## A connection -/

/-- Feeding chunks is splitting the stream they make up. -/
theorem feedAll_eq (chunks : List (List UInt8)) : ∀ {p : PacketFrameParser}, p.Valid →
    (P.framing e p.maxBodyLength).next p.pending = .incomplete →
    (∀ packets rest, (P.framing e p.maxBodyLength).split (p.pending ++ chunks.flatten) =
        (packets, some rest) →
      ∃ p', p.feedAll P e chunks = (packets, true, p') ∧ p'.Valid ∧ p'.pending = rest ∧
        p'.maxBodyLength = p.maxBodyLength) ∧
    (∀ packets, (P.framing e p.maxBodyLength).split (p.pending ++ chunks.flatten) =
        (packets, none) →
      ∃ p', p.feedAll P e chunks = (packets, false, p')) := by
  induction chunks with
  | nil =>
      intro p hp hnext
      rw [List.flatten_nil, List.append_nil, Framing.split_incomplete _ hnext]
      constructor
      · intro packets rest h
        obtain ⟨rfl, rfl⟩ : [] = packets ∧ p.pending = rest := by simpa using h
        exact ⟨p, rfl, hp, rfl, rfl⟩
      · intro packets h
        simp at h
  | cons chunk chunks ih =>
      intro p hp hnext
      obtain ⟨hsome, hnone⟩ := feed_eq P e hp chunk
      obtain ⟨happend, hbroken⟩ :=
        (P.framing e p.maxBodyLength).split_append (p.pending ++ chunk) chunks.flatten
      rw [List.flatten_cons, ← List.append_assoc]
      rcases hsplit : (P.framing e p.maxBodyLength).split (p.pending ++ chunk) with
        ⟨packets₁, _ | rest₁⟩
      · -- the chunk completes a header that violates the limits
        have hfeed := hnone _ hsplit
        rw [hbroken _ hsplit]
        constructor
        · intro packets rest h
          simp at h
        · intro packets h
          obtain ⟨rfl, -⟩ := Prod.mk.inj h
          exact ⟨p.reset, by rw [feedAll, hfeed]⟩
      · obtain ⟨p', hfeed, hp', rfl, hmax⟩ := hsome _ _ hsplit
        have hnext' : (P.framing e p'.maxBodyLength).next p'.pending = .incomplete := by
          rw [hmax]
          exact Framing.next_of_split _ _ _ (congrArg Prod.snd hsplit)
        obtain ⟨hrec, hrec'⟩ := ih hp' hnext'
        rw [hmax] at hrec hrec'
        rw [happend _ _ hsplit]
        constructor
        · rintro packets rest h
          obtain ⟨rfl, hrest⟩ := Prod.mk.inj h
          obtain ⟨p'', hrun, hvalid, hpend, hmax'⟩ := hrec _ rest (Prod.ext rfl hrest)
          exact ⟨p'', by rw [feedAll, hfeed]; simp only [hrun], hvalid, hpend, hmax'⟩
        · rintro packets h
          obtain ⟨rfl, hrest⟩ := Prod.mk.inj h
          obtain ⟨p'', hrun⟩ := hrec' _ (Prod.ext rfl hrest)
          exact ⟨p'', by rw [feedAll, hfeed]; simp only [hrun]⟩

end PacketFrameParser

/-! ## Written packets -/

/-- `Serialize(value, out)` appends what `Serialize(value)` returns. -/
theorem serializeInto_eq {S : Schema} {B : Build} {t : Ty} {v : Val} {body : List UInt8}
    (h : serialize S B t v = .ret body) (out : List UInt8) :
    serializeInto S B t v out = .ret (out ++ body) := by
  obtain ⟨o, bs, e, ho, hemits⟩ := (Emitting.writeRules B).write S v t
  cases o with
  | ret u =>
      have hbody : bs = body := Out.ret.inj ((serialize_of_emits hemits).symm.trans h)
      rw [serializeInto_of_emits hemits, hbody]
  | throw c =>
      obtain ⟨hout, -⟩ := hemits.room {} MemoryPackWriter.inv_default trivial
      unfold serialize at h
      rw [Prog.bind_apply] at h
      rcases hres : Writer.write S t v B {} with ⟨a | c' | _, s, l⟩ <;> rw [hres] at hout h <;>
        cases hout
      simp at h
  | diverge => exact absurd rfl ho

/-- The header is patched into the room left for it. -/
theorem overwrite_header (out header body : List UInt8) (h : header.length = 6) :
    overwrite (out ++ List.replicate 6 0 ++ body) out.length header = out ++ (header ++ body) := by
  unfold overwrite
  rw [h, List.append_assoc out, List.take_left, ← List.drop_drop, List.drop_left,
    List.drop_left' List.length_replicate, List.append_assoc]

/-- A packet of a type the codec serializes. -/
structure Message (S : Schema) (B : Build) where
  id : UInt16
  ty : Ty
  value : Val
  body : List UInt8
  serialized : serialize S B ty value = .ret body

namespace Message

variable {S : Schema} {B : Build}

/-- The bytes of the packet on the stream. -/
def frame (m : Message S B) : List UInt8 :=
  defaultPacketHeaderPolicy.write B.endian m.id (asInt32 m.body.length) ++ m.body

/-- One `WritePacket` for each message, into one buffer. -/
def writePackets (P : PacketHeaderPolicy) :
    List (Message S B) → List UInt8 → Out MemoryPackError (List UInt8)
  | [], out => .ret out
  | m :: ms, out =>
      match writePacket P S B out m.id m.ty m.value with
      | .ret out' => writePackets P ms out'
      | .throw e => .throw e
      | .diverge => .diverge

@[simp] theorem length_hostBytes (e : Endian) (w n : Nat) : (hostBytes e w n).length = w := by
  cases e with
  | little => exact length_leBytes w n
  | big =>
      show (leBytes w n).reverse.length = w
      rw [List.length_reverse, length_leBytes]

theorem length_header (e : Endian) (id : UInt16) (len : Int) :
    (defaultPacketHeaderPolicy.write e id len).length = 6 := by
  show (hostBytes e 2 _ ++ hostBytes e 4 _).length = 6
  rw [List.length_append, length_hostBytes, length_hostBytes]

theorem writePacket_eq (m : Message S B) (out : List UInt8) :
    writePacket defaultPacketHeaderPolicy S B out m.id m.ty m.value = .ret (out ++ m.frame) := by
  have hbody : (out ++ List.replicate 6 0 ++ m.body).length - out.length - 6 = m.body.length := by
    simp only [List.length_append, List.length_replicate]
    omega
  have hpatch : overwrite (out ++ List.replicate 6 0 ++ m.body) out.length
      (defaultPacketHeaderPolicy.write B.endian m.id (asInt32 m.body.length)) =
      out ++ m.frame := overwrite_header _ _ _ (length_header _ _ _)
  have hsize : defaultPacketHeaderPolicy.headerSize = 6 := rfl
  simp only [writePacket, hsize, serializeInto_eq m.serialized, hbody, hpatch]

theorem writePackets_eq : ∀ (ms : List (Message S B)) (out : List UInt8),
    writePackets defaultPacketHeaderPolicy ms out = .ret (out ++ (ms.map frame).flatten)
  | [], out => by
      rw [List.map_nil, List.flatten_nil, List.append_nil]
      rfl
  | m :: ms, out => by
      rw [writePackets, writePacket_eq]
      show writePackets defaultPacketHeaderPolicy ms (out ++ m.frame) = _
      rw [writePackets_eq ms, List.map_cons, List.flatten_cons, List.append_assoc]

/-- A header is read back on the host that wrote it, whatever its byte order. -/
theorem read_header {e : Endian} (id : UInt16) {len : Int} (h₁ : -2 ^ 31 ≤ len) (h₂ : len < 2 ^ 31)
    (rest : List UInt8) :
    defaultPacketHeaderPolicy.read e (defaultPacketHeaderPolicy.write e id len ++ rest) =
      (id, len) := by
  have hid : hostBytes e 2 (endianConvert e 2 id.toNat) = leBytes 2 id.toNat :=
    hostBytes_endianConvert e 2 _
  have hlen : hostBytes e 4 (endianConvert e 4 (int32Bits len)) = leBytes 4 (int32Bits len) :=
    hostBytes_endianConvert e 4 _
  have hnum : ∀ {w n : Nat}, n < 256 ^ w → endianConvert e w (hostNat e (leBytes w n)) = n := by
    intro w n hn
    have h := Reader.endianConvert_hostNat e (leBytes w n)
    rwa [length_leBytes, leNat_leBytes hn] at h
  show (UInt16.ofNat (endianConvert e 2 (hostNat e (List.take 2 (_ ++ _ ++ rest)))),
    asInt32 (endianConvert e 4 (hostNat e (List.take 4 (List.drop 2 (_ ++ _ ++ rest)))))) = _
  rw [hid, hlen, List.append_assoc, List.take_left' (length_leBytes 2 _),
    List.drop_left' (length_leBytes 2 _), List.take_left' (length_leBytes 4 _),
    hnum id.toNat_lt, hnum (int32Bits_lt len), UInt16.ofNat_toNat, Reads.asInt32_int32Bits h₁ h₂]

/-- What the callback should see of the message. -/
def packet (m : Message S B) : Packet := (m.id, m.body)

section Frames

variable {maxBodyLength : Nat} {m : Message S B}

/-- A body whose length fits the header is the first frame of the stream. -/
theorem next_frame (hmax : m.body.length ≤ maxBodyLength) (hfit : m.body.length < 2 ^ 31)
    (rest : List UInt8) :
    (defaultPacketHeaderPolicy.framing B.endian maxBodyLength).next (m.frame ++ rest) =
      .item m.packet rest := by
  have hlen : asInt32 m.body.length = m.body.length :=
    Reader.asInt32_of_lt (by omega) (by exact_mod_cast hfit)
  have hheader := length_header B.endian m.id (asInt32 m.body.length)
  have hread : defaultPacketHeaderPolicy.read B.endian (m.frame ++ rest) =
      (m.id, (m.body.length : Int)) := by
    unfold frame
    rw [List.append_assoc, read_header _ (Reader.le_asInt32 _) (Reader.asInt32_lt _), hlen]
  have hlength : (m.frame ++ rest).length = 6 + m.body.length + rest.length := by
    unfold frame
    rw [List.length_append, List.length_append, hheader]
  have hbody : ((m.frame ++ rest).drop 6).take m.body.length = m.body := by
    unfold frame
    rw [List.append_assoc, List.drop_left' hheader, List.take_left]
  have hrest : (m.frame ++ rest).drop (6 + m.body.length) = rest := by
    apply List.drop_left'
    unfold frame
    rw [List.length_append, hheader]
  show PacketHeaderPolicy.firstFrame _ _ _ _ = _
  unfold PacketHeaderPolicy.firstFrame
  rw [hread, hlength, show defaultPacketHeaderPolicy.headerSize = 6 from rfl, if_neg (by omega),
    if_neg (by simpa using hmax), Int.toNat_natCast, if_neg (by omega), hbody, hrest]
  rfl

/-- A longer body is not: its length was cut to 32 bits. -/
theorem next_frame_ne (hlong : 2 ^ 31 ≤ m.body.length) {rest rest' : List UInt8} {a : Packet}
    (h : (defaultPacketHeaderPolicy.framing B.endian maxBodyLength).next (m.frame ++ rest) =
      .item a rest') : a ≠ m.packet := by
  rintro rfl
  have hread : (defaultPacketHeaderPolicy.read B.endian (m.frame ++ rest)).2 =
      asInt32 m.body.length := by
    unfold frame
    rw [List.append_assoc, read_header _ (Reader.le_asInt32 _) (Reader.asInt32_lt _)]
  have hlt := Reader.asInt32_lt m.body.length
  have hshort := PacketHeaderPolicy.length_body_le _ h
  rw [hread] at hshort
  have hbody : m.packet.2.length = m.body.length := rfl
  omega

theorem split_frames : ∀ {ms : List (Message S B)},
    (∀ m ∈ ms, m.body.length ≤ maxBodyLength) → (∀ m ∈ ms, m.body.length < 2 ^ 31) →
    (defaultPacketHeaderPolicy.framing B.endian maxBodyLength).split (ms.map frame).flatten =
      (ms.map packet, some [])
  | [], _, _ => Framing.split_incomplete _ rfl
  | m :: ms, hmax, hfit => by
      obtain ⟨hm, hms⟩ := List.forall_mem_cons.mp hmax
      obtain ⟨hm', hms'⟩ := List.forall_mem_cons.mp hfit
      rw [List.map_cons, List.map_cons, List.flatten_cons,
        Framing.split_item _ (next_frame hm hm' _), split_frames hms hms']

/-- The frames of a stream are its messages only if every body length fits the
header. -/
theorem fits_of_split : ∀ {ms : List (Message S B)},
    (∀ m ∈ ms, m.body.length ≤ maxBodyLength) →
    ((defaultPacketHeaderPolicy.framing B.endian maxBodyLength).split (ms.map frame).flatten).1 =
      ms.map packet → ∀ m ∈ ms, m.body.length < 2 ^ 31
  | [], _, _ => fun _ hm => absurd hm List.not_mem_nil
  | m :: ms, hmax, h => by
      obtain ⟨hm, hms⟩ := List.forall_mem_cons.mp hmax
      rw [List.map_cons, List.map_cons, List.flatten_cons] at h
      by_cases hfit : m.body.length < 2 ^ 31
      · rw [Framing.split_item _ (next_frame hm hfit _)] at h
        exact List.forall_mem_cons.mpr ⟨hfit, fits_of_split hms (List.cons.inj h).2⟩
      · exfalso
        cases hnext : (defaultPacketHeaderPolicy.framing B.endian maxBodyLength).next
            (m.frame ++ (ms.map frame).flatten) with
        | item a rest =>
            rw [Framing.split_item _ hnext] at h
            exact next_frame_ne (Nat.not_lt.mp hfit) hnext (List.cons.inj h).1
        | incomplete =>
            rw [Framing.split_incomplete _ hnext] at h
            exact absurd h.symm (List.cons_ne_nil _ _)
        | broken =>
            rw [Framing.split_broken _ hnext] at h
            exact absurd h.symm (List.cons_ne_nil _ _)

end Frames

end Message

/-! ## The theorem -/

section Reassembly

variable (P : PacketHeaderPolicy) (e : Endian) (maxBodyLength : Nat)

theorem feedAll_fresh (chunks : List (List UInt8)) :
    (∀ packets rest, (P.framing e maxBodyLength).split chunks.flatten = (packets, some rest) →
      ∃ p', PacketFrameParser.feedAll P e { maxBodyLength := maxBodyLength } chunks =
          (packets, true, p') ∧ p'.Valid ∧ p'.pending = rest ∧
        p'.maxBodyLength = maxBodyLength) ∧
    (∀ packets, (P.framing e maxBodyLength).split chunks.flatten = (packets, none) →
      ∃ p', PacketFrameParser.feedAll P e { maxBodyLength := maxBodyLength } chunks =
        (packets, false, p')) := by
  have hempty : (P.framing e maxBodyLength).next [] = .incomplete := if_pos P.headerSize_pos
  have hvalid : PacketFrameParser.Valid { maxBodyLength := maxBodyLength } := Nat.le_refl 0
  exact PacketFrameParser.feedAll_eq P e chunks hvalid hempty

/-- The parser delivers the frames of the stream. -/
theorem feedAll_delivered (chunks : List (List UInt8)) :
    (PacketFrameParser.feedAll P e { maxBodyLength := maxBodyLength } chunks).1 =
      ((P.framing e maxBodyLength).split chunks.flatten).1 := by
  obtain ⟨hsome, hnone⟩ := feedAll_fresh P e maxBodyLength chunks
  rcases hsplit : (P.framing e maxBodyLength).split chunks.flatten with ⟨packets, _ | rest⟩
  · obtain ⟨p', hrun⟩ := hnone _ hsplit
    rw [hrun]
  · obtain ⟨p', hrun, -⟩ := hsome _ _ hsplit
    rw [hrun]

/-- The `Feed` of one chunk, after chunks without a violation. -/
theorem feed_after (before : List (List UInt8)) (chunk : List UInt8)
    (h : ((P.framing e maxBodyLength).split before.flatten).2.isSome = true) :
    ((PacketFrameParser.feedAll P e { maxBodyLength := maxBodyLength } before).2.2.feed P e
      chunk).2.1 = ((P.framing e maxBodyLength).split (before.flatten ++ chunk)).2.isSome := by
  rcases hsplit : (P.framing e maxBodyLength).split before.flatten with ⟨packets, _ | rest⟩
  · simp [hsplit] at h
  · obtain ⟨p', hrun, hvalid, rfl, hmax⟩ := (feedAll_fresh P e maxBodyLength before).1 _ _ hsplit
    obtain ⟨hsome, hnone⟩ := PacketFrameParser.feed_eq P e hvalid chunk
    rw [((P.framing e maxBodyLength).split_append _ chunk).1 _ _ hsplit, hrun]
    rw [hmax] at hsome hnone
    rcases hnext : (P.framing e maxBodyLength).split (p'.pending ++ chunk) with ⟨packets', _ | rest'⟩
    · rw [hnone _ hnext]
      rfl
    · obtain ⟨p'', hfeed, -⟩ := hsome _ _ hnext
      rw [hfeed]
      rfl

end Reassembly

/-- Whatever the chunks, the parser delivers the frames of the stream, refuses the
chunk that completes the first header outside the limits, and otherwise holds the
bytes behind the last frame. The packets of `WritePacket` are these frames exactly
when every body length fits the header's `int32_t`. -/
theorem feed_reassembles (P : PacketHeaderPolicy) (S : Schema) (B : Build) (maxBodyLength : Nat) :
    (∀ chunks : List (List UInt8),
      (PacketFrameParser.feedAll P B.endian { maxBodyLength := maxBodyLength } chunks).1 =
        ((P.framing B.endian maxBodyLength).split chunks.flatten).1 ∧
      (PacketFrameParser.feedAll P B.endian { maxBodyLength := maxBodyLength } chunks).2.1 =
        ((P.framing B.endian maxBodyLength).split chunks.flatten).2.isSome ∧
      (∀ rest, ((P.framing B.endian maxBodyLength).split chunks.flatten).2 = some rest →
        (PacketFrameParser.feedAll P B.endian
          { maxBodyLength := maxBodyLength } chunks).2.2.buffered = rest.length)) ∧
    (∀ (before : List (List UInt8)) (chunk : List UInt8),
      ((P.framing B.endian maxBodyLength).split before.flatten).2.isSome = true →
      ((PacketFrameParser.feedAll P B.endian
          { maxBodyLength := maxBodyLength } before).2.2.feed P B.endian chunk).2.1 =
        ((P.framing B.endian maxBodyLength).split (before.flatten ++ chunk)).2.isSome) ∧
    (∀ ms : List (Message S B), (∀ m ∈ ms, m.body.length ≤ maxBodyLength) →
      ∃ stream, Message.writePackets defaultPacketHeaderPolicy ms [] = .ret stream ∧
        ∀ chunks : List (List UInt8), chunks.flatten = stream →
          ((∃ p, PacketFrameParser.feedAll defaultPacketHeaderPolicy B.endian
              { maxBodyLength := maxBodyLength } chunks =
                (ms.map fun m => (m.id, m.body), true, p) ∧ p.buffered = 0) ↔
            ∀ m ∈ ms, m.body.length < 2 ^ 31)) := by
  refine ⟨?_, ?_, ?_⟩
  · intro chunks
    obtain ⟨hsome, hnone⟩ := feedAll_fresh P B.endian maxBodyLength chunks
    rcases hsplit : (P.framing B.endian maxBodyLength).split chunks.flatten with
      ⟨packets, _ | rest⟩
    · obtain ⟨p', hrun⟩ := hnone _ hsplit
      rw [hrun]
      exact ⟨rfl, rfl, fun _ h => by simp at h⟩
    · obtain ⟨p', hrun, -, hpending, -⟩ := hsome _ _ hsplit
      rw [hrun]
      refine ⟨rfl, rfl, ?_⟩
      intro rest' h
      rw [← Option.some.inj h, ← hpending, PacketFrameParser.length_pending]
  · exact feed_after P B.endian maxBodyLength
  · intro ms hms
    refine ⟨_, Message.writePackets_eq ms [], ?_⟩
    rw [List.nil_append]
    intro chunks hchunks
    constructor
    · rintro ⟨p, hp, -⟩
      apply Message.fits_of_split hms
      rw [← hchunks, ← feedAll_delivered, hp]
      rfl
    · intro hfit
      have hsplit := Message.split_frames hms hfit
      rw [← hchunks] at hsplit
      obtain ⟨p, hrun, -, hpending, -⟩ :=
        (feedAll_fresh defaultPacketHeaderPolicy B.endian maxBodyLength chunks).1 _ _ hsplit
      refine ⟨p, hrun, ?_⟩
      rw [← PacketFrameParser.length_pending, hpending]
      rfl

/-- A packet with `n` zero bytes in a `std::vector<uint8_t>`. -/
def byteMessage (n : Nat) (hn : n ≤ maxLength) : Message .plain ⟨true, .little, .w64, 0⟩ where
  id := 1
  ty := .vector (.scalar (.int false .w1))
  value := .seq (List.replicate n (.scalar 0))
  body := encode .plain (.vector (.scalar (.int false .w1))) (.seq (List.replicate n (.scalar 0)))
  serialized := by
    apply serialize_of_emits (Emits.write rfl _ _ _ _)
    rw [Encodable, encodableEach_iff, List.length_replicate]
    refine ⟨hn, ?_⟩
    intro v hv
    rw [List.eq_of_mem_replicate hv, Encodable]
    exact Nat.zero_lt_succ _

theorem length_byteMessage (n : Nat) (hn : n ≤ maxLength) :
    (byteMessage n hn).body.length = n + 4 := by
  show (encodeCounted (encodeEach _ _ (List.replicate n (.scalar 0)))).length = _
  rw [encodeCounted, List.length_append, length_le32, List.length_flatten, encodeEach_eq,
    List.map_replicate, List.map_replicate, List.sum_replicate_nat]
  show 4 + n * 1 = n + 4
  omega

/-- A packet whose body length does not fit the header is not delivered. -/
theorem Message.lost {S : Schema} {B : Build} {maxBodyLength : Nat} (m : Message S B)
    (hmax : m.body.length ≤ maxBodyLength) (hlong : 2 ^ 31 ≤ m.body.length) :
    ∃ stream, writePackets defaultPacketHeaderPolicy [m] [] = .ret stream ∧
      (PacketFrameParser.feedAll defaultPacketHeaderPolicy B.endian
        { maxBodyLength := maxBodyLength } [stream]).1 ≠ [(m.id, m.body)] := by
  refine ⟨_, writePackets_eq [m] [], ?_⟩
  rw [feedAll_delivered, List.flatten_singleton, List.nil_append]
  intro hdelivered
  have hall : ∀ m' ∈ [m], m'.body.length ≤ maxBodyLength := by
    intro m' hm'
    rwa [List.mem_singleton.mp hm']
  have hfit := fits_of_split hall hdelivered m (List.mem_singleton_self m)
  omega

/-- The longest vector is within a limit of 2^32 bytes, and is not delivered. -/
theorem byteMessage_lost : (byteMessage maxLength (Nat.le_refl _)).body.length ≤ 2 ^ 32 ∧
    ∃ stream, Message.writePackets defaultPacketHeaderPolicy
        [byteMessage maxLength (Nat.le_refl _)] [] = .ret stream ∧
      (PacketFrameParser.feedAll defaultPacketHeaderPolicy .little
        { maxBodyLength := 2 ^ 32 } [stream]).1 ≠
        [((byteMessage maxLength (Nat.le_refl _)).id,
          (byteMessage maxLength (Nat.le_refl _)).body)] := by
  have hlen := length_byteMessage maxLength (Nat.le_refl _)
  have hmax : maxLength = 2147483647 := rfl
  have hle : (byteMessage maxLength (Nat.le_refl _)).body.length ≤ 2 ^ 32 := by omega
  exact ⟨hle, Message.lost _ hle (by omega)⟩

end MemoryPack
