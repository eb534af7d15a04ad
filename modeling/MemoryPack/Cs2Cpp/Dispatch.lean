import MemoryPack.Cs2Cpp.Deserializers
import MemoryPack.Wire.Packet

/-!
# Dispatch

`EmitDispatch` writes one case for each constant of the `PacketId` enum that a struct with a
serializer is named after: the case decodes the body as that struct and hands it to the
handler. Two programs that are generated from one source, each in a style of its own, agree
on all of it: what one of them sends, in any pieces, is what the handler of the other gets.
-/

namespace MemoryPack.Cs2Cpp

open Effect

/-! ## The two ends of a connection -/

namespace CppGenerator

variable (g : CppGenerator)

/-- The cases of the `switch` that `EmitDispatch` writes. -/
def dispatchCases : List (BitVec 64 × PackableType) :=
  if g.dispatchEnabled then
    match g.schema.findPacketIdEnum with
    | none => []
    | some e => e.members.filterMap fun m =>
        match g.schema.typeByName m.name with
        | none => none
        | some t => if t.isUnmanaged then none else some (m.value, t)
  else []

/-- `DispatchPacket(id, body, handler)`: `none` where it returns `false`, and otherwise the
struct of the case and how `Deserialize` ends, whose value the handler gets. -/
def dispatchPacket (P : MemoryPack.Schema) (B : Build) (id : BitVec 64) (body : List UInt8) :
    Option (PackableType × Out MemoryPackError Val) := do
  let c ← g.dispatchCases.find? fun c => c.1 = id
  let T ← g.typeTy c.2
  return (c.2, (g.read P T (P.init T) B { data := body }).out)

/-- `WritePacket(out, id, packet)`, with the serializers of the header. -/
def appendPacket (P : MemoryPack.Schema) (B : Build) (out : List UInt8) (id : UInt16)
    (t : PackableType) (T : Ty) (v : Val) : Out MemoryPackError (List UInt8) :=
  let headerAt := out.length
  let headerSize := defaultPacketHeaderPolicy.headerSize
  let written := (do g.writePacket P t T v; return (← Prog.get).getSpan : WriteM (List UInt8)) B
    (.ofVector (out ++ List.replicate headerSize 0))
  match written.out with
  | .ret out' =>
      let bodyLength := out'.length - headerAt - headerSize
      .ret (overwrite out' headerAt
        (defaultPacketHeaderPolicy.write B.endian id (asInt32 bodyLength)))
  | .throw e => .throw e
  | .diverge => .diverge

end CppGenerator

/-- A packet to be sent: its id, and the struct with its type of the library. -/
structure Outgoing where
  id : UInt16
  type : PackableType
  ty : Ty
  value : Val

/-- One `WritePacket` for each packet, into one buffer. -/
def CppGenerator.appendPackets (g : CppGenerator) (P : MemoryPack.Schema) (B : Build) :
    List Outgoing → List UInt8 → Out MemoryPackError (List UInt8)
  | [], out => .ret out
  | x :: xs, out =>
      match g.appendPacket P B out x.id x.type x.ty x.value with
      | .ret out' => g.appendPackets P B xs out'
      | .throw e => .throw e
      | .diverge => .diverge

/-- `DispatchPacket(static_cast<PacketId>(id), body, handler)` as the callback of `Feed`. -/
def CppGenerator.onPacket (g : CppGenerator) (P : MemoryPack.Schema) (B : Build)
    (packet : Packet) : Option (PackableType × Out MemoryPackError Val) :=
  g.dispatchPacket P B (BitVec.ofNat 64 packet.1.toNat) packet.2

/-- A packet of the header that the other end takes. -/
structure Outgoing.Sendable (g : CppGenerator) (P : MemoryPack.Schema) (limit : Nat)
    (x : Outgoing) : Prop where
  case : (BitVec.ofNat 64 x.id.toNat, x.type) ∈ g.dispatchCases
  ty : g.typeTy x.type = some x.ty
  encodable : Encodable P x.ty x.value
  recoverable : Recoverable P x.ty x.value
  nest_le : nest P x.ty x.value ≤ 256
  length_le : (encode P x.ty x.value).length ≤ limit

/-- A header that reads every member as the library does: it has no C arrays, and no annotated
members in the macro style. -/
def CppGenerator.ReadsAll (g : CppGenerator) : Prop :=
  match g.options.style with
  | .explicit => g.Plain
  | .macroStyle => ∀ i t, g.serializable i = some t → ∀ m ∈ t.members, m.annot = none

/-! ## Reading -/

section Reading

variable {u : CompilationUnit} {options : GeneratorOptions} {P : MemoryPack.Schema} {T : Ty}
  {v : Val} {B : Build}

/-- What is read back of an encoding by a header of either style. -/
theorem read_encode (hP : (u.generator options).CompilesTo P)
    (hinit : (u.generator options).Initialised P) (hall : (u.generator options).ReadsAll)
    (hT : (u.generator options).Knows T) (hB : B.Supports P T) (hS : P.Shaped)
    (hv : Encodable P T v) (hrec : Recoverable P T v) (hnest : nest P T v ≤ 256)
    (hsize : (encode P T v).length < B.sizeMod) :
    ((u.generator options).read P T (P.init T) B { data := encode P T v }).out = .ret v := by
  obtain ⟨l, hlibrary⟩ := deserialize_encode hB hS hv hrec hnest
    (s := []) (by rwa [List.append_nil])
  rw [List.append_nil] at hlibrary
  unfold CppGenerator.ReadsAll at hall
  cases hstyle : options.style with
  | macroStyle =>
    have hdefine : (u.generator options).options.style = .macroStyle := hstyle
    rw [hdefine] at hall
    have hread : (u.generator options).read P T (P.init T) = deserialize P T := by
      unfold CppGenerator.read deserialize Reader.read
      simp only [readObject_macroStyle hP hdefine hall]
    rw [hread, hlibrary]
  | explicit =>
    have hexplicit : (u.generator options).options.style = .explicit := hstyle
    rw [hexplicit] at hall
    have hsame : (u.generator options).withStyle .explicit = u.generator options := by
      rw [← hexplicit]
      rfl
    have hmirrors : Mirrors (deserialize P T) ((u.generator options).read P T (P.init T)) := by
      apply Mirrors.get
      · intro r
        apply Mirrors.readTy _ T hT
        intro i hi
        have hobject := readObject_mirrors_explicit hP hinit hall (r.size + 1) i (hi i rfl)
        rwa [hsame] at hobject
      · intro r d k
        rfl
    have hdone := hmirrors.succeeds 0 256 hlibrary rfl
    exact hdone.1

end Reading

/-! ## Sending -/

section Sending

variable {u : CompilationUnit} {options : GeneratorOptions} {g : CppGenerator}
  {P : MemoryPack.Schema} {B : Build} {x : Outgoing} {xs : List Outgoing} {limit : Nat}

theorem mem_dispatchCases {c : BitVec 64 × PackableType} (hc : c ∈ g.dispatchCases) :
    g.schema.typeByName c.2.name = some c.2 ∧ c.2.isUnmanaged = false := by
  unfold CppGenerator.dispatchCases at hc
  split at hc
  · split at hc
    · cases hc
    · next e _ =>
      obtain ⟨m, -, hm⟩ := List.mem_filterMap.mp hc
      cases ht : g.schema.typeByName m.name with
      | none =>
        rw [ht] at hm
        cases hm
      | some t =>
        rw [ht] at hm
        cases hmanaged : t.isUnmanaged with
        | true => simp [hmanaged] at hm
        | false =>
          have hname : t.name = m.name := by simpa using List.find?_some ht
          simp only [hmanaged, Bool.false_eq_true, if_false, Option.some.injEq] at hm
          rw [← hm]
          exact ⟨hname ▸ ht, hmanaged⟩
  · cases hc

/-- The cases of the table are the cases of the `switch`. -/
theorem cases_emitDispatch :
    (g.emitDispatch.map DispatchTable.cases).getD [] = g.dispatchCases.map (·.2.name) := by
  unfold CppGenerator.emitDispatch CppGenerator.dispatchCases
  split
  · cases g.schema.findPacketIdEnum with
    | none => rfl
    | some e =>
      rw [Option.map_some, Option.map_some, Option.getD_some]
      dsimp only
      rw [List.map_filterMap]
      apply List.filterMap_congr
      intro m _
      cases ht : g.schema.typeByName m.name with
      | none => rfl
      | some t =>
        have hname : t.name = m.name := by simpa using List.find?_some ht
        dsimp only
        rw [← hname]
        split <;> rfl
  · rfl

/-- The bytes of a packet on the stream. -/
def Outgoing.frame (P : MemoryPack.Schema) (x : Outgoing) : List UInt8 :=
  defaultPacketHeaderPolicy.write .little x.id (asInt32 (encode P x.ty x.value).length) ++
    encode P x.ty x.value

theorem appendPacket_eq (hB : B.endian = .little) (hP : (u.generator options).CompilesTo P)
    (hx : x.Sendable (u.generator options) P limit) (out : List UInt8) :
    (u.generator options).appendPacket P B out x.id x.type x.ty x.value =
      .ret (out ++ x.frame P) := by
  have ht := CppGenerator.mem_orderedTypes.mpr (mem_dispatchCases hx.case).1
  have hsize : defaultPacketHeaderPolicy.headerSize = 6 := rfl
  have hbody : (out ++ List.replicate 6 0 ++ encode P x.ty x.value).length - out.length - 6 =
      (encode P x.ty x.value).length := by
    simp only [List.length_append, List.length_replicate]
    omega
  unfold CppGenerator.appendPacket Outgoing.frame
  simp only [hsize, getSpan_of_emits (writePacket_emits hB hP ht hx.ty hx.encodable), hbody, hB]
  rw [overwrite_header _ _ _ (Message.length_header _ _ _)]

theorem appendPackets_eq (hB : B.endian = .little) (hP : (u.generator options).CompilesTo P) :
    ∀ {xs : List Outgoing}, (∀ x ∈ xs, x.Sendable (u.generator options) P limit) →
      ∀ out, (u.generator options).appendPackets P B xs out =
        .ret (out ++ (xs.map (Outgoing.frame P)).flatten)
  | [], _, out => by
      rw [List.map_nil, List.flatten_nil, List.append_nil]
      rfl
  | x :: xs, hxs, out => by
      obtain ⟨hx, hxs⟩ := List.forall_mem_cons.mp hxs
      rw [CppGenerator.appendPackets, appendPacket_eq hB hP hx]
      dsimp only
      rw [appendPackets_eq hB hP hxs, List.map_cons, List.flatten_cons, List.append_assoc]

/-- The frames of sent packets are these packets. -/
theorem split_frames (hlimit : limit < 2 ^ 31) :
    ∀ {xs : List Outgoing}, (∀ x ∈ xs, x.Sendable g P limit) →
      (defaultPacketHeaderPolicy.framing .little limit).split
          (xs.map (Outgoing.frame P)).flatten =
        (xs.map fun x => (x.id, encode P x.ty x.value), some [])
  | [], _ => Framing.split_incomplete _ rfl
  | x :: xs, hxs => by
      obtain ⟨hx, hxs⟩ := List.forall_mem_cons.mp hxs
      have hbody : serialize P ⟨true, .little, .w64, 0⟩ x.ty x.value =
          .ret (encode P x.ty x.value) := serialize_eq_encode (.inl rfl) hx.encodable
      have hnext := Message.next_frame (m := ⟨x.id, x.ty, x.value, _, hbody⟩) hx.length_le
        (Nat.lt_of_le_of_lt hx.length_le hlimit) (xs.map (Outgoing.frame P)).flatten
      rw [List.map_cons, List.map_cons, List.flatten_cons]
      exact (Framing.split_item _ hnext).trans (by rw [split_frames hlimit hxs]; rfl)

end Sending

/-! ## The session -/

section Session

variable {u : CompilationUnit} {options : GeneratorOptions} {P : MemoryPack.Schema} {B : Build}
  {x : Outgoing} {limit : Nat}

/-- The case of a packet, and the value that its handler gets. -/
theorem onPacket_sendable (hB : B.endian = .little) (hP : (u.generator options).CompilesTo P)
    (hinit : (u.generator options).Initialised P) (hall : (u.generator options).ReadsAll)
    (hS : P.Shaped) (hcases : ((u.generator options).dispatchCases.map Prod.fst).Nodup)
    (hlimit : limit < 2 ^ 31) (hx : x.Sendable (u.generator options) P limit) :
    (u.generator options).onPacket P B (x.id, encode P x.ty x.value) =
      some (x.type, .ret x.value) := by
  have ht := CppGenerator.mem_orderedTypes.mpr (mem_dispatchCases hx.case).1
  have hT : (u.generator options).Knows x.ty := (typeTy_refl ht hx.ty).objects
  have hsize : (encode P x.ty x.value).length < B.sizeMod := by
    have hbits : 2 ^ 32 ≤ B.sizeMod := by
      unfold Build.sizeMod
      cases B.size <;> norm_num [SizeWidth.bits]
    have hlength := hx.length_le
    omega
  have hread := read_encode hP hinit hall hT (.inl hB) hS hx.encodable hx.recoverable hx.nest_le
    hsize
  have hfind : (u.generator options).dispatchCases.find?
      (fun c => c.1 = BitVec.ofNat 64 x.id.toNat) = some (BitVec.ofNat 64 x.id.toNat, x.type) :=
    find?_of_nodup hcases hx.case
  unfold CppGenerator.onPacket CppGenerator.dispatchPacket
  simp only [hfind, Option.bind_eq_bind, Option.bind_some, hx.ty, hread, Option.pure_def]

/-- Two programs with headers from one source, in any two styles. Packets that the one writes
into a buffer, and the other receives in any pieces, reach the handlers of the other: each the
handler of its own struct, in the order in which they were written, with the values that were
sent. -/
theorem dispatch_session (hP : (u.generator options).CompilesTo P)
    (hinit : (u.generator options).Initialised P) (hS : P.Shaped) {s s' : GeneratorStyle}
    (hall : ((u.generator options).withStyle s').ReadsAll)
    (hcases : ((u.generator options).dispatchCases.map Prod.fst).Nodup) {B' : Build}
    (hB : B.endian = .little) (hB' : B'.endian = .little) (hlimit : limit < 2 ^ 31)
    {xs : List Outgoing} (hxs : ∀ x ∈ xs, x.Sendable (u.generator options) P limit) :
    ∃ stream, ((u.generator options).withStyle s).appendPackets P B xs [] = .ret stream ∧
      ∀ chunks : List (List UInt8), chunks.flatten = stream → ∃ packets parser,
        PacketFrameParser.feedAll defaultPacketHeaderPolicy B'.endian { maxBodyLength := limit }
          chunks = (packets, true, parser) ∧ parser.buffered = 0 ∧
        packets.map (((u.generator options).withStyle s').onPacket P B') =
          xs.map fun x => some (x.type, .ret x.value) := by
  have hside : ∀ style, ∀ x ∈ xs, x.Sendable ((u.generator options).withStyle style) P limit :=
    fun style x hx => ⟨(hxs x hx).case, (hxs x hx).ty, (hxs x hx).encodable,
      (hxs x hx).recoverable, (hxs x hx).nest_le, (hxs x hx).length_le⟩
  have hcompiles : ∀ style, (u.generator { options with style := style }).CompilesTo P :=
    hP.withStyle
  have hsent : (u.generator { options with style := s }).appendPackets P B xs [] =
      .ret (xs.map (Outgoing.frame P)).flatten :=
    appendPackets_eq hB (hcompiles s) (hside s) []
  refine ⟨_, hsent, fun chunks hchunks => ?_⟩
  have hsplit := split_frames hlimit hxs
  rw [← hchunks] at hsplit
  obtain ⟨parser, hrun, -, hpending, -⟩ :=
    (feedAll_fresh defaultPacketHeaderPolicy .little limit chunks).1 _ _ hsplit
  refine ⟨_, parser, hB' ▸ hrun, ?_, ?_⟩
  · rw [← PacketFrameParser.length_pending, hpending]
    rfl
  · rw [List.map_map]
    apply List.map_congr_left
    intro x hx
    have hhandled : (u.generator { options with style := s' }).onPacket P B'
        (x.id, encode P x.ty x.value) = some (x.type, .ret x.value) :=
      onPacket_sendable hB' (hcompiles s') hinit hall hS hcases hlimit (hside s' x hx)
    exact hhandled

/-- Two packets of a lobby. -/
def lobby : CompilationUnit :=
  ⟨none, [⟨"PacketId", none, [⟨"Login", none⟩, ⟨"Chat", none⟩]⟩], [
    { name := "Login", kind := .classKind,
      members := [Side.property "Name" (.predefined "string")] },
    { name := "Chat", kind := .classKind,
      members := [Side.property "Room" (.predefined "int"),
        Side.property "Text" (.predefined "string")] }]⟩

def lobbyProgram : MemoryPack.Schema :=
  program [declOf .define [.string], declOf .define [.scalar (.int true .w4), .string]]

/-- A login and a line, from a 32-bit program in the macro style to one in the explicit style. -/
theorem dispatch_session_lobby : ∃ login chat stream,
    login.name = "Login" ∧ chat.name = "Chat" ∧
    (lobby.generator { style := .macroStyle }).appendPackets lobbyProgram
      ⟨false, .little, .w32, 0⟩ [⟨0, login, .object 0, .seq [.bytes [0x61]]⟩,
        ⟨1, chat, .object 1, .seq [.scalar 7, .bytes [0x68, 0x69]]⟩] [] = .ret stream ∧
    ∀ chunks : List (List UInt8), chunks.flatten = stream → ∃ packets parser,
      PacketFrameParser.feedAll defaultPacketHeaderPolicy .little { maxBodyLength := 4096 }
        chunks = (packets, true, parser) ∧ parser.buffered = 0 ∧
      packets.map ((lobby.generator { style := .explicit }).onPacket lobbyProgram
        ⟨true, .little, .w64, 0⟩) = [some (login, .ret (.seq [.bytes [0x61]])),
          some (chat, .ret (.seq [.scalar 7, .bytes [0x68, 0x69]]))] := by
  have hP : (lobby.generator {}).CompilesTo lobbyProgram := by
    apply compilesTo_program
    exact .cons (fun _ => ⟨rfl, .cons rfl .nil⟩)
      (.cons (fun _ => ⟨rfl, .cons rfl (.cons rfl .nil)⟩) .nil)
  have hinit : (lobby.generator {}).Initialised lobbyProgram := by
    intro i t ht
    rcases i with _ | _ | i
    · rfl
    · rfl
    · cases ht
  have hcases : (lobby.generator {}).dispatchCases.map (fun c => (c.1, c.2.name)) =
      [(0, "Login"), (1, "Chat")] := by decide
  obtain ⟨⟨n, login⟩, cs, heq, hlogin, hcs⟩ := List.map_eq_cons_iff.mp hcases
  obtain ⟨⟨m, chat⟩, cs', rfl, hchat, hnil⟩ := List.map_eq_cons_iff.mp hcs
  obtain rfl := List.map_eq_nil_iff.mp hnil
  obtain ⟨rfl, hlogin⟩ := Prod.mk.inj hlogin
  obtain ⟨rfl, hchat⟩ := Prod.mk.inj hchat
  have hmem : (0, login) ∈ (lobby.generator {}).dispatchCases ∧
      (1, chat) ∈ (lobby.generator {}).dispatchCases := by
    rw [heq]
    exact ⟨List.mem_cons_self, List.mem_cons_of_mem _ List.mem_cons_self⟩
  have hty : ∀ name i t, t.name = name → t.isUnmanaged = false →
      (lobby.generator {}).number name = some i →
        (lobby.generator {}).typeTy t = some (.object i) := by
    intro name i t hname hmanaged hi
    rw [CppGenerator.typeTy, hmanaged, hname, hi, if_neg Bool.false_ne_true]
    rfl
  have hxs : ∀ x ∈ [(⟨0, login, .object 0, .seq [.bytes [0x61]]⟩ : Outgoing),
      ⟨1, chat, .object 1, .seq [.scalar 7, .bytes [0x68, 0x69]]⟩],
      x.Sendable (lobby.generator {}) lobbyProgram 4096 := by
    intro x hx
    simp only [List.mem_cons, List.not_mem_nil, or_false] at hx
    rcases hx with rfl | rfl
    · refine ⟨hmem.1, ?_, ?_, ?_, ?_, ?_⟩
      · exact hty "Login" 0 login hlogin (mem_dispatchCases hmem.1).2 (by decide)
      · simp [lobbyProgram, program, declOf, Encodable, EncodableMembers, maxLength]
      · simp [lobbyProgram, program, declOf, Recoverable, RecoverableMembers]
      · dsimp only
        decide
      · dsimp only
        decide
    · refine ⟨hmem.2, ?_, ?_, ?_, ?_, ?_⟩
      · exact hty "Chat" 1 chat hchat (mem_dispatchCases hmem.2).2 (by decide)
      · simp [lobbyProgram, program, declOf, Encodable, EncodableMembers, maxLength,
          Scalar.Holds, Scalar.size, Scalar.width, Width.bytes]
      · simp [lobbyProgram, program, declOf, Recoverable, RecoverableMembers]
      · dsimp only
        decide
      · dsimp only
        decide
  have hplain : ((lobby.generator {}).withStyle .explicit).ReadsAll := by
    intro i t ht m hm _
    have hall : ((lobby.generator {}).orderedTypes.all fun t => t.members.all fun m =>
        m.annot.isNone) = true := by decide
    have hplace := (CppGenerator.serializable_eq_some.mp ht).1
    have hmembers := List.all_eq_true.mp hall t (List.mem_of_getElem? hplace)
    exact Option.isNone_iff_eq_none.mp (List.all_eq_true.mp hmembers m hm)
  have hshaped : lobbyProgram.Shaped := by
    intro i
    rcases i with _ | _ | i
    · simp [lobbyProgram, program, declOf, ShapedMembers, inits, Shaped, MemoryPack.Schema.init]
    · simp [lobbyProgram, program, declOf, ShapedMembers, inits, Shaped, MemoryPack.Schema.init]
    · simp [lobbyProgram, program, ShapedMembers, MemoryPack.Schema.plain]
  have hswitch : ((lobby.generator {}).dispatchCases.map Prod.fst).Nodup := by
    rw [heq]
    simp
  have hlittle : (⟨true, .little, .w64, 0⟩ : Build).endian = .little := rfl
  obtain ⟨stream, hsent, hreceived⟩ := dispatch_session hP hinit hshaped (s := .macroStyle) hplain
    hswitch (B := ⟨false, .little, .w32, 0⟩) rfl hlittle (by decide) hxs
  exact ⟨login, chat, stream, hlogin, hchat, hsent, hreceived⟩

end Session

end MemoryPack.Cs2Cpp
