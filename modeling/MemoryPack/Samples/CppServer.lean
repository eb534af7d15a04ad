import MemoryPack.Core.Packet

/-!
# The C++ server

One client of `samples/CppServer`: the frame parser, the reader limits, and the writer
whose buffer all responses go through. What the host does is a parameter: the clock, and
how many bytes each call of `send` takes. The console output is left out.

`Vector3` is an unmanaged struct, which only little-endian hosts compile.
-/

namespace MemoryPack.CppServer

open Effect LittleEndian

/-! ## Protocol (packets.hpp) -/

inductive PacketId where
  | echoRequest | echoResponse | sumRequest | sumResponse | spawnRequest | spawnResponse
deriving DecidableEq, Repr

def PacketId.toUInt16 : PacketId → UInt16
  | .echoRequest => 201
  | .echoResponse => 202
  | .sumRequest => 203
  | .sumResponse => 204
  | .spawnRequest => 205
  | .spawnResponse => 206

def int32 : Ty := .scalar (.int true .w4)
def int64 : Ty := .scalar (.int true .w8)

theorem sizeof_vector3_pos : 0 < 12 := by decide

theorem alignof_vector3_pos : 0 < 4 := by decide

/-- `MEMORYPACK_UNMANAGED_EXACT(memorypack::Vector3, 12, x, y, z)` -/
def vector3 : Unmanaged where
  size := 12
  align := 4
  scrubbed := none
  init := List.replicate 12 0
  size_pos := sizeof_vector3_pos
  align_pos := alignof_vector3_pos
  length_init := rfl

def echoRequest : Ty := .object 0
def echoResponse : Ty := .object 1
def sumRequest : Ty := .object 2
def sumResponse : Ty := .object 3
def entity : Ty := .object 4
def spawnRequest : Ty := .object 5
def spawnResponse : Ty := .object 6

/-- The `MEMORYPACK_DEFINE` of each packet. -/
def packetDecl : Nat → Decl
  | 0 => ⟨.define, [int32, .string], [.scalar 0, .bytes []], rfl, fun _ => by decide, by simp⟩
  | 1 => ⟨.define, [int32, .string, int64], [.scalar 0, .bytes [], .scalar 0], rfl,
      fun _ => by decide, by simp⟩
  | 2 => ⟨.define, [.vector int32], [.seq []], rfl, fun _ => by decide, by simp⟩
  | 3 => ⟨.define, [int64], [.scalar 0], rfl, fun _ => by decide, by simp⟩
  | 4 => ⟨.define, [int32, .unmanaged vector3, .string],
      [.scalar 0, .bytes vector3.init, .bytes []], rfl, fun _ => by decide, by simp⟩
  | 5 => ⟨.define, [int32], [.scalar 0], rfl, fun _ => by decide, by simp⟩
  | 6 => ⟨.define, [.vector entity], [.seq []], rfl, fun _ => by decide, by simp⟩
  | i => Schema.plain.decl i

def schema : Schema := { Schema.plain with decl := packetDecl }

/-! ## Limits and helpers -/

def maxBodyLength : Nat := 64 * 1024
def maxSumValues : Nat := 4096
def maxSpawnCount : Int := 64

def makeReaderLimits : ReaderOptions where
  maxCollectionLength := 4096
  maxStringLength := 4096
  maxDepth := 8

/-- The machine the server runs on. -/
structure Host where
  build : Build
  /-- the `static_assert` of `WriteUnmanaged` -/
  little : build.endian = .little
  /-- microseconds since the Unix epoch, at each reading of the clock -/
  micros : Nat → Int
  /-- what each call of `send` takes of the bytes it is given; 0 also where it fails -/
  send : Nat → Nat → Nat
  send_le : ∀ call n, send call n ≤ n

/-- `UtcNowTicks()`, as the bits of an `int64_t`. -/
def Host.utcNowTicks (H : Host) (reading : Nat) : Nat :=
  ((621355968000000000 + H.micros reading * 10) % 2 ^ 64).toNat

/-- A `char` above 127 is negative or too large, and stays as it is. -/
def toUpperAscii (text : List UInt8) : List UInt8 :=
  text.map fun c => if 0x61 ≤ c ∧ c ≤ 0x7A then c - 0x61 + 0x41 else c

/-- The `float` with the value `n / 2` or `-n / 2`; below 2^24 halves are exact. -/
def halfFloat (negative : Bool) (n : Nat) : Nat :=
  (if negative then 2 ^ 31 else 0) +
    if n = 0 then 0 else (n.log2 + 125) * 2 ^ 23 + n * 2 ^ (23 - n.log2)

/-- The memory of `Vector3{ f * 1.5f, f * 2.5f, f * -0.5f }`. -/
def entityPosition (i : Nat) : List UInt8 :=
  leBytes 4 (halfFloat false (3 * i)) ++ leBytes 4 (halfFloat false (5 * i)) ++
    leBytes 4 (halfFloat true i)

/-- `"Entity_" + std::to_string(i)` -/
def entityName (i : Nat) : List UInt8 :=
  ("Entity_".toList ++ Nat.toDigits 10 i).map fun c => UInt8.ofNat c.toNat

def spawnEntity (i : Nat) : Val :=
  .seq [.scalar (1000 + i), .bytes (entityPosition i), .bytes (entityName i)]

/-! ## A connection -/

/-- What the handlers of a connection use; `sent` is what the socket took. -/
structure Peer where
  writer : MemoryPackWriter
  alive : Bool := true
  crashed : Bool := false
  sent : List UInt8 := []
  sends : Nat := 0
  readings : Nat := 0
deriving DecidableEq, Repr

section Handlers

variable (H : Host)

/-- `DecodeBody`; that decoding terminates is `read_safe`. -/
def decodeBody (t : Ty) (body : List UInt8) : Option Val :=
  let r :=
    Reader.read schema t (schema.init t) H.build { data := body, options := makeReaderLimits }
  match r.out with
  | .ret out => if r.st.failed then none else some out
  | .throw _ => none
  | .diverge => none

/-- `SendAll`. -/
def sendAll (data : List UInt8) (p : Peer) : Peer × Bool :=
  if _hdata : data = [] then (p, true)
  else
    let n := H.send p.sends data.length
    if _hn : n = 0 then ({ p with sends := p.sends + 1 }, false)
    else sendAll (data.drop n) { p with sent := p.sent ++ data.take n, sends := p.sends + 1 }
termination_by data.length
decreasing_by
  have hpos := List.length_pos_iff.mpr _hdata
  rw [List.length_drop]
  omega

/-- `SendPacket`: the header is patched into the room in front of the body. -/
def sendPacket (id : PacketId) (t : Ty) (body : Val) (p : Peer) : Peer × Out MemoryPackError Bool :=
  let cleared := (Writer.clear H.build p.writer).st
  -- `sendBuffer_` is the vector the writer appends to
  let placed := { cleared with
    vec := cleared.vec.map fun v => resize v defaultPacketHeaderPolicy.headerSize }
  let r := Writer.write schema t body H.build placed
  match r.out with
  | .ret _ =>
      if r.st.failed then ({ p with writer := r.st }, .ret false)
      else
        let bodyLength := r.st.size - defaultPacketHeaderPolicy.headerSize
        let sendBuffer := overwrite r.st.data 0
          (defaultPacketHeaderPolicy.write H.build.endian id.toUInt16 (asInt32 bodyLength))
        let s := sendAll H sendBuffer { p with writer := { r.st with vec := some sendBuffer } }
        (s.1, .ret s.2)
  | .throw e => ({ p with writer := r.st }, .throw e)
  | .diverge => ({ p with writer := r.st }, .diverge)

def handleEcho (body : List UInt8) (p : Peer) : Peer × Out MemoryPackError Bool :=
  match decodeBody H echoRequest body with
  | some (.seq [.scalar seq, .bytes text]) =>
      let response := .seq [.scalar seq, .bytes (toUpperAscii text),
        .scalar (H.utcNowTicks p.readings)]
      sendPacket H .echoResponse echoResponse response { p with readings := p.readings + 1 }
  | _ => (p, .ret false)

def handleSum (body : List UInt8) (p : Peer) : Peer × Out MemoryPackError Bool :=
  match decodeBody H sumRequest body with
  | some (.seq [.seq values]) =>
      if values.length > maxSumValues then (p, .ret false)
      else
        let total := (values.map fun v => asInt32 v.bits).sum
        sendPacket H .sumResponse sumResponse (.seq [.scalar (total % 2 ^ 64).toNat]) p
  | _ => (p, .ret false)

/-- `count` between 0 and `MAX_SPAWN_COUNT`. -/
def clampCount (count : Int) : Nat :=
  if count < 0 then 0 else if count > maxSpawnCount then maxSpawnCount.toNat else count.toNat

def handleSpawn (body : List UInt8) (p : Peer) : Peer × Out MemoryPackError Bool :=
  match decodeBody H spawnRequest body with
  | some (.seq [.scalar count]) =>
      let entities := (List.range (clampCount (asInt32 count))).map spawnEntity
      sendPacket H .spawnResponse spawnResponse (.seq [.seq entities]) p
  | _ => (p, .ret false)

/-- `HandlePacket`: a response id is as unexpected as an unknown one. -/
def handlePacket (rawId : UInt16) (body : List UInt8) (p : Peer) :
    Peer × Out MemoryPackError Bool :=
  if rawId = PacketId.echoRequest.toUInt16 then handleEcho H body p
  else if rawId = PacketId.sumRequest.toUInt16 then handleSum H body p
  else if rawId = PacketId.spawnRequest.toUInt16 then handleSpawn H body p
  else (p, .ret false)

/-- The callback of `Feed`. An exception that leaves it ends the process. -/
def onPacket (p : Peer) (packet : Packet) : Peer :=
  if p.alive ∧ ¬ p.crashed then
    match handlePacket H packet.1 packet.2 p with
    | (p', .ret true) => p'
    | (p', .ret false) => { p' with alive := false }
    | (p', _) => { p' with crashed := true }
  else p

end Handlers

structure Connection where
  parser : PacketFrameParser := { maxBodyLength := maxBodyLength }
  peer : Peer := { writer := .ofVector [] }
deriving DecidableEq, Repr

/-- One `Feed` of `Run`. The callback does not touch the parser, so the frames of the chunk
may be collected before they are handled. -/
def Connection.feed (H : Host) (c : Connection) (chunk : List UInt8) : Connection × Bool :=
  let (packets, ok, parser) := c.parser.feed defaultPacketHeaderPolicy H.build.endian chunk
  (⟨parser, packets.foldl (onPacket H) c.peer⟩, ok)

/-- `Run`, over what each `recv` returned. -/
def Connection.run (H : Host) : Connection → List (List UInt8) → Connection
  | c, [] => c
  | c, chunk :: chunks =>
      if c.peer.alive ∧ ¬ c.peer.crashed then
        match c.feed H chunk with
        | (c', true) => run H c' chunks
        | (c', false) => c'
      else c

end MemoryPack.CppServer
