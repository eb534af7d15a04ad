import MemoryPack.Core.Deserialize

/-!
# Packet framing (packet.hpp)

A packet on a TCP stream is a header, the length of its body included, and the body.
`writePacket` leaves room for the header and patches it in behind the serialized
body; `PacketFrameParser` collects received bytes and delivers each frame when its
last byte has arrived. The header layout is a policy, `size_t` arithmetic is exact:
a buffer is no larger than memory.
-/

namespace MemoryPack

open Effect LittleEndian

/-- `Policy::HeaderSize`, `Policy::Write`, `Policy::Read`. -/
structure PacketHeaderPolicy where
  headerSize : Nat
  write : Endian → UInt16 → Int → List UInt8
  read : Endian → List UInt8 → UInt16 × Int
  headerSize_pos : 0 < headerSize
  /-- `Read` looks at the header only -/
  read_take : ∀ e src, read e (src.take headerSize) = read e src

/-- `[2B uint16 packetId][4B int32 bodyLength]`, little-endian. -/
def defaultPacketHeaderPolicy : PacketHeaderPolicy where
  headerSize := 6
  write := fun e id bodyLength =>
    hostBytes e 2 (endianConvert e 2 id.toNat) ++
      hostBytes e 4 (endianConvert e 4 (int32Bits bodyLength))
  read := fun e src =>
    (UInt16.ofNat (endianConvert e 2 (hostNat e (src.take 2))),
      asInt32 (endianConvert e 4 (hostNat e ((src.drop 2).take 4))))
  headerSize_pos := by decide
  read_take := by
    intro e src
    rw [List.take_take, List.drop_take, List.take_take]
    rfl

/-- `WritePacket(out, id, body)`. -/
def writePacket (P : PacketHeaderPolicy) (S : Schema) (B : Build) (out : List UInt8)
    (id : UInt16) (t : Ty) (body : Val) : Out MemoryPackError (List UInt8) :=
  let headerAt := out.length
  match serializeInto S B t body (out ++ List.replicate P.headerSize 0) with
  | .ret out' =>
      let bodyLength := out'.length - headerAt - P.headerSize
      .ret (overwrite out' headerAt (P.write B.endian id (asInt32 bodyLength)))
  | .throw e => .throw e
  | .diverge => .diverge

/-- `WritePacket(out, id, body)` with the contents of `out` however it ends: an exception
leaves the room for the header and what was written of the body. -/
def writePacketTo (P : PacketHeaderPolicy) (S : Schema) (B : Build) (out : List UInt8)
    (id : UInt16) (t : Ty) (body : Val) : Out MemoryPackError Unit × List UInt8 :=
  let headerAt := out.length
  let r := Writer.write S t body B (.ofVector (out ++ List.replicate P.headerSize 0))
  let written := r.st.getSpan
  match r.out with
  | .ret _ =>
      let bodyLength := written.length - headerAt - P.headerSize
      (.ret (), overwrite written headerAt (P.write B.endian id (asInt32 bodyLength)))
  | .throw e => (.throw e, written)
  | .diverge => (.diverge, written)

/-- `writePacket` is what the caller sees of it when it returns. -/
theorem writePacket_eq_writePacketTo (P : PacketHeaderPolicy) (S : Schema) (B : Build)
    (out : List UInt8) (id : UInt16) (t : Ty) (body : Val) :
    writePacket P S B out id t body =
      match writePacketTo P S B out id t body with
      | (.ret _, out') => .ret out'
      | (.throw e, _) => .throw e
      | (.diverge, _) => .diverge := by
  unfold writePacket writePacketTo serializeInto
  rw [Prog.bind_apply]
  rcases Writer.write S t body B (.ofVector (out ++ List.replicate P.headerSize 0)) with
    ⟨a | c | _, w, l⟩
  · rfl
  · rfl
  · rfl

/-- `MakePacket(id, body)`. -/
def makePacket (P : PacketHeaderPolicy) (S : Schema) (B : Build) (id : UInt16) (t : Ty)
    (body : Val) : Out MemoryPackError (List UInt8) := writePacket P S B [] id t body

/-- What a callback of `Feed` receives: an id and a body. -/
abbrev Packet := UInt16 × List UInt8

/-- `BasicPacketFrameParser<Policy>`. -/
structure PacketFrameParser where
  maxBodyLength : Nat
  buffer : List UInt8 := []
  consumed : Nat := 0
deriving DecidableEq, Repr

namespace PacketFrameParser

def buffered (p : PacketFrameParser) : Nat := p.buffer.length - p.consumed

def reset (p : PacketFrameParser) : PacketFrameParser := { p with buffer := [], consumed := 0 }

def compact (p : PacketFrameParser) : PacketFrameParser :=
  if p.consumed = 0 then p
  else if p.consumed = p.buffer.length then { p with buffer := [], consumed := 0 }
  else if p.consumed > 4096 ∨ p.consumed * 2 ≥ p.buffer.length then
    { p with buffer := p.buffer.drop p.consumed, consumed := 0 }
  else p

/-- The loop of `Feed`: what it delivers and `consumed_` behind the last complete
frame, or nothing when a header violates the limits. -/
def feedLoop (P : PacketHeaderPolicy) (e : Endian) (maxBodyLength : Nat) (buffer : List UInt8)
    (consumed : Nat) : List Packet × Option Nat :=
  let available := buffer.length - consumed
  if available < P.headerSize then ([], some consumed)
  else
    let header := P.read e (buffer.drop consumed)
    let bodyLength := header.2
    if bodyLength < 0 ∨ bodyLength.toNat > maxBodyLength then ([], none)
    else
      let frameSize := P.headerSize + bodyLength.toNat
      if available < frameSize then ([], some consumed)
      else
        let body := (buffer.drop (consumed + P.headerSize)).take bodyLength.toNat
        let rest := feedLoop P e maxBodyLength buffer (consumed + frameSize)
        ((header.1, body) :: rest.1, rest.2)
termination_by buffer.length - consumed
decreasing_by
  have := P.headerSize_pos
  omega

/-- `Feed(bytes, onPacket)`: what is delivered, the result, and the parser
afterwards. -/
def feed (P : PacketHeaderPolicy) (e : Endian) (p : PacketFrameParser) (bytes : List UInt8) :
    List Packet × Bool × PacketFrameParser :=
  let buffer := p.buffer ++ bytes
  match feedLoop P e p.maxBodyLength buffer p.consumed with
  | (packets, none) => (packets, false, { p with buffer := buffer }.reset)
  | (packets, some consumed) =>
      (packets, true, { p with buffer := buffer, consumed := consumed }.compact)

/-- The chunks of a connection, fed in order until `Feed` returns `false`. -/
def feedAll (P : PacketHeaderPolicy) (e : Endian) :
    PacketFrameParser → List (List UInt8) → List Packet × Bool × PacketFrameParser
  | p, [] => ([], true, p)
  | p, chunk :: chunks =>
      match p.feed P e chunk with
      | (packets, true, p') =>
          let rest := feedAll P e p' chunks
          (packets ++ rest.1, rest.2)
      | (packets, false, p') => (packets, false, p')

/-! ## Callbacks that do more than return

`onPacket` runs between the frame being found and `consumed_` being advanced over it. It
may throw, which leaves `Feed` at once, and it may call the parser. -/

/-- What a callback may call on the parser. -/
inductive ParserCall where
  | reset
  | setMaxBodyLength (value : Nat)
deriving DecidableEq, Repr

def call (p : PacketFrameParser) : ParserCall → PacketFrameParser
  | .reset => p.reset
  | .setMaxBodyLength value => { p with maxBodyLength := value }

/-- One invocation of `onPacket`: what it calls, in order, and whether it then throws. -/
structure Reaction where
  calls : List ParserCall := []
  throws : Bool := false
deriving DecidableEq, Repr

def Reaction.resets (x : Reaction) : Bool := x.calls.contains .reset

/-- What becomes of a part of the stream: it is handed to the callback as a frame, or a
`Reset()` drops it. Positions count from the first byte ever fed. -/
inductive StreamEvent where
  | frame (start size : Nat) (packet : Packet)
  | discarded (start size : Nat)
deriving DecidableEq, Repr

/-- How `Feed` ends; `undefined` where it reads behind its buffer. -/
inductive FeedEnd where
  | returned (ok : Bool)
  | threw
  | undefined
deriving DecidableEq, Repr

/-- A `Feed` from its first round on: the states the parser goes through, what happens to
the stream, and the end. -/
structure FeedRun where
  parser : PacketFrameParser
  events : List StreamEvent
  points : List PacketFrameParser
  stop : FeedEnd

/-- The calls leave the buffer and `consumed_` alone, or both are empty. -/
theorem foldl_call (calls : List ParserCall) : ∀ p : PacketFrameParser,
    (ParserCall.reset ∉ calls ∧ (calls.foldl call p).buffer = p.buffer ∧
      (calls.foldl call p).consumed = p.consumed) ∨
    (ParserCall.reset ∈ calls ∧ (calls.foldl call p).buffer = [] ∧
      (calls.foldl call p).consumed = 0) := by
  induction calls with
  | nil => exact fun p => Or.inl ⟨List.not_mem_nil, rfl, rfl⟩
  | cons c calls ih =>
      intro p
      rcases ih (p.call c) with ⟨hmem, hbuffer, hconsumed⟩ | ⟨hmem, hbuffer, hconsumed⟩
      · cases c with
        | reset => exact Or.inr ⟨List.mem_cons_self, hbuffer, hconsumed⟩
        | setMaxBodyLength value =>
            exact Or.inl ⟨by simpa using hmem, hbuffer, hconsumed⟩
      · exact Or.inr ⟨List.mem_cons_of_mem _ hmem, hbuffer, hconsumed⟩

/-- The loop of `Feed` and the `Compact()` behind it, with the callback: `onPacket k` is
its invocation number `k`, and `fed` bytes of the stream have been fed. -/
def feedRounds (P : PacketHeaderPolicy) (e : Endian) (onPacket : Nat → Packet → Reaction)
    (fed invoked : Nat) (p : PacketFrameParser) : FeedRun :=
  -- `buffer_.size() - consumed_` wraps, and the header is read behind the buffer
  if p.buffer.length < p.consumed then ⟨p, [], [p], .undefined⟩
  else
    let available := p.buffer.length - p.consumed
    let start := fed - available
    if available < P.headerSize then ⟨p.compact, [], [p, p.compact], .returned true⟩
    else
      let header := P.read e (p.buffer.drop p.consumed)
      let bodyLength := header.2
      if bodyLength < 0 ∨ bodyLength.toNat > p.maxBodyLength then
        ⟨p.reset, [.discarded start available], [p, p.reset], .returned false⟩
      else
        let frameSize := P.headerSize + bodyLength.toNat
        if available < frameSize then ⟨p.compact, [], [p, p.compact], .returned true⟩
        else
          let packet : Packet :=
            (header.1, (p.buffer.drop (p.consumed + P.headerSize)).take bodyLength.toNat)
          let reaction := onPacket invoked packet
          let p' := reaction.calls.foldl call p
          let dropped := if reaction.resets then
            [StreamEvent.discarded (start + frameSize) (available - frameSize)] else []
          let points := reaction.calls.scanl call p
          if reaction.throws then
            ⟨p', .frame start frameSize packet :: dropped, points, .threw⟩
          else
            let rest := feedRounds P e onPacket fed (invoked + 1)
              { p' with consumed := p'.consumed + frameSize }
            ⟨rest.parser, .frame start frameSize packet :: (dropped ++ rest.events),
              points ++ rest.points, rest.stop⟩
termination_by p.buffer.length - p.consumed
decreasing_by
  have hpos := P.headerSize_pos
  show (reaction.calls.foldl call p).buffer.length -
    ((reaction.calls.foldl call p).consumed + frameSize) < _
  rcases foldl_call reaction.calls p with ⟨-, hbuffer, hconsumed⟩ | ⟨-, hbuffer, hconsumed⟩
  · rw [hbuffer, hconsumed]
    omega
  · rw [hbuffer, hconsumed, List.length_nil]
    omega

end PacketFrameParser

/-- A parser and the stream fed to it so far. -/
structure Connection where
  parser : PacketFrameParser
  stream : List UInt8 := []
  events : List PacketFrameParser.StreamEvent := []
  points : List PacketFrameParser := []
  stop : PacketFrameParser.FeedEnd := .returned true

namespace Connection

open PacketFrameParser

/-- Where each frame handed to the callback starts. -/
def starts (events : List StreamEvent) : List Nat :=
  events.filterMap fun
    | .frame start _ _ => some start
    | .discarded _ _ => none

/-- `Feed(bytes, onPacket)`. Nothing is known of a parser that read behind its buffer. -/
def feed (P : PacketHeaderPolicy) (e : Endian) (onPacket : Nat → Packet → Reaction)
    (c : Connection) (bytes : List UInt8) : Connection :=
  if c.stop = .undefined then c
  else
    let r := feedRounds P e onPacket (c.stream.length + bytes.length) (starts c.events).length
      { c.parser with buffer := c.parser.buffer ++ bytes }
    { parser := r.parser, stream := c.stream ++ bytes, events := c.events ++ r.events,
      points := c.points ++ r.points, stop := r.stop }

/-- A caller that feeds every chunk, whatever became of the ones before. -/
def run (P : PacketHeaderPolicy) (e : Endian) (onPacket : Nat → Packet → Reaction)
    (maxBodyLength : Nat) (chunks : List (List UInt8)) : Connection :=
  chunks.foldl (feed P e onPacket) { parser := { maxBodyLength := maxBodyLength } }

end Connection

end MemoryPack
