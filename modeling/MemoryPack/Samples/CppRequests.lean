import MemoryPack.DotNet.Half
import MemoryPack.Samples.CppServer
import MemoryPack.Wire.Accepted
import MemoryPack.Wire.Transcoding

/-!
# The requests and answers of the C++ server

`Request` and `Request.reply` say what the server is for. `accepts` is the request that a
frame holds, as far as the server takes it for one; `served` are the requests of a stream up
to the first frame that is refused. A request that is decoded, whatever the bytes, has an
answer that can be sent; a request within the limits of the protocol is decoded.
-/

namespace MemoryPack.CppServer

open Effect LittleEndian Rounding

/-! ## Requests and answers -/

/-- A request, with `int32_t`s as their bits. -/
inductive Request where
  | echo (seq : Nat) (text : List UInt8)
  | sum (values : List Nat)
  | spawn (count : Nat)
deriving DecidableEq, Repr

/-- A packet before it is written. -/
structure Outgoing where
  id : PacketId
  ty : Ty
  value : Val

/-- A packet on the stream. -/
def Outgoing.frame (x : Outgoing) : List UInt8 :=
  defaultPacketHeaderPolicy.write .little x.id.toUInt16
    (asInt32 (encode schema x.ty x.value).length) ++ encode schema x.ty x.value

namespace Request

def outgoing : Request → Outgoing
  | echo seq text => ⟨.echoRequest, echoRequest, .seq [.scalar seq, .bytes text]⟩
  | sum values => ⟨.sumRequest, sumRequest, .seq [.seq (values.map .scalar)]⟩
  | spawn count => ⟨.spawnRequest, spawnRequest, .seq [.scalar count]⟩

/-- The answer, at a given time. -/
def reply (ticks : Nat) : Request → Outgoing
  | echo seq text =>
      ⟨.echoResponse, echoResponse, .seq [.scalar seq, .bytes (toUpperAscii text), .scalar ticks]⟩
  | sum values =>
      ⟨.sumResponse, sumResponse,
        .seq [.scalar ((values.map fun v : Nat => asInt32 v).sum % 2 ^ 64).toNat]⟩
  | spawn count =>
      ⟨.spawnResponse, spawnResponse,
        .seq [.seq ((List.range (clampCount (asInt32 count))).map spawnEntity)]⟩

/-- How often the clock is read for the answer. -/
def readings : Request → Nat
  | echo _ _ => 1
  | _ => 0

/-- What the protocol allows. -/
def WithinLimits : Request → Prop
  | echo seq text => seq < 256 ^ 4 ∧ text.length ≤ 4096
  | sum values => values.length ≤ 4096 ∧ ∀ v ∈ values, v < 256 ^ 4
  | spawn count => count < 256 ^ 4

/-- What is known of a request that was decoded: UTF-16 grows when it becomes UTF-8. -/
def Decoded : Request → Prop
  | echo seq text => seq < 256 ^ 4 ∧ text.length ≤ 3 * 4096
  | _ => True

end Request

section Spec

variable (H : Host)

/-- The answers to a sequence of requests, from a given reading of the clock on. -/
def replies : Nat → List Request → List Outgoing
  | _, [] => []
  | k, q :: qs => q.reply (H.utcNowTicks k) :: replies (k + q.readings) qs

/-- The request in a decoded body. -/
def echoOf : Option Val → Option Request
  | some (.seq [.scalar seq, .bytes text]) => some (.echo seq text)
  | _ => none

def sumOf : Option Val → Option Request
  | some (.seq [.seq values]) =>
      if values.length > maxSumValues then none else some (.sum (values.map Val.bits))
  | _ => none

def spawnOf : Option Val → Option Request
  | some (.seq [.scalar count]) => some (.spawn count)
  | _ => none

/-- The request that a frame holds. -/
def accepts (packet : Packet) : Option Request :=
  if packet.1 = PacketId.echoRequest.toUInt16 then echoOf (decodeBody H echoRequest packet.2)
  else if packet.1 = PacketId.sumRequest.toUInt16 then sumOf (decodeBody H sumRequest packet.2)
  else if packet.1 = PacketId.spawnRequest.toUInt16 then
    spawnOf (decodeBody H spawnRequest packet.2)
  else none

/-- Answer a request, or refuse the frame. -/
def respond (p : Peer) : Option Request → Peer × Out MemoryPackError Bool
  | none => (p, .ret false)
  | some q =>
      let x := q.reply (H.utcNowTicks p.readings)
      sendPacket H x.id x.ty x.value { p with readings := p.readings + q.readings }

/-- The requests in front of the first frame that is refused. -/
def served : List Packet → List Request
  | [] => []
  | packet :: packets =>
      match accepts H packet with
      | none => []
      | some q => q :: served packets

end Spec

/-- The complete frames of what a client sends. -/
def frames (stream : List UInt8) : List Packet :=
  ((defaultPacketHeaderPolicy.framing .little maxBodyLength).split stream).1

/-- The bytes of the answers to the requests of a stream. -/
def answers (H : Host) (stream : List UInt8) : List UInt8 :=
  ((replies H 0 (served H (frames stream))).map Outgoing.frame).flatten

/-! ## The packets of the protocol -/

theorem schema_kind (i : Nat) : (schema.decl i).kind ≠ .versionTolerant := by
  show (packetDecl i).kind ≠ .versionTolerant
  unfold packetDecl
  split <;> simp [Schema.plain]

theorem schema_rewritable : schema.Rewritable where
  define := schema_kind
  members := by
    intro i
    show ∀ t ∈ (packetDecl i).members, t.PartsIn Ty.Rewritable
    unfold packetDecl
    split <;> simp [Schema.plain, Ty.PartsIn, Ty.parts, Ty.Rewritable, int32, int64, entity]
  init := by
    intro i
    show EncodableMembers schema (packetDecl i).members (packetDecl i).init
    unfold packetDecl
    split <;> simp [Schema.plain, EncodableMembers, Encodable, EncodableEach, int32, int64,
      vector3, Scalar.Holds, Scalar.size]
  less := Schema.plain_rewritable.less

theorem schema_lossless : schema.Lossless := by
  intro i
  refine ⟨schema_kind i, ?_⟩
  show ∀ t ∈ (packetDecl i).members, t.Lossless
  unfold packetDecl
  split <;> simp [Schema.plain, Ty.Lossless, int32, int64, entity, vector3,
    Unmanaged.PaddingFree]

section Define

variable {S : Schema} {i : Nat} {ts : List Ty} {vs : List Val}

/-- A packet is a `MEMORYPACK_DEFINE` of its members. -/
theorem encode_define (hk : (S.decl i).kind = .define) (hts : (S.decl i).members = ts) :
    encode S (.object i) (.seq vs) = UInt8.ofNat ts.length :: (encodeMembers S ts vs).flatten := by
  rw [encode, hk, hts]

theorem nest_define (hk : (S.decl i).kind = .define) (hts : (S.decl i).members = ts) :
    nest S (.object i) (.seq vs) = nestMembers S ts vs + 1 := by
  rw [nest, hk, hts]

theorem encodable_define (hk : (S.decl i).kind = .define) (hts : (S.decl i).members = ts)
    (hvs : EncodableMembers S ts vs) : Encodable S (.object i) (.seq vs) := by
  rw [Encodable, hts]
  exact ⟨hvs, fun h => by simp [hk] at h⟩

end Define

/-- What the limits have to allow for a packet: it can be written, its members are not nested
deeply, and its body is short. -/
structure Outgoing.Sendable (x : Outgoing) : Prop where
  lossless : x.ty.Lossless
  encodable : Encodable schema x.ty x.value
  nest : nest schema x.ty x.value ≤ 256
  length : (encode schema x.ty x.value).length ≤ maxBodyLength

theorem length_encodeString_le (bs : List UInt8) : (encodeString bs).length ≤ 8 + bs.length := by
  unfold encodeString
  split
  · rw [length_le32]
    omega
  · rw [List.length_append, List.length_append, length_le32, length_le32]
    omega

theorem entityName_length : ∀ i < 64, (entityName i).length ≤ 9 := by decide

theorem length_entityPosition (i : Nat) : (entityPosition i).length = 12 := by
  simp [entityPosition]

/-- The coordinates are the products of the source, which are exact. -/
theorem floatValue_halfFloat (negative : Bool) {n : Nat} (hn : n < 2 ^ 24) :
    Half.floatValue (UInt32.ofNat (halfFloat negative n)) =
      (if negative then -1 else 1) * ((n : ℚ) / 2) := by
  have hword : ∀ k < 2 ^ 31, Half.floatValue
      (UInt32.ofNat ((if negative then 2 ^ 31 else 0) + k)) =
        (if negative then -1 else 1) * ((magnitude 23 k : ℚ) / 2 ^ 149) := by
    intro k hk
    have hbits : (UInt32.ofNat ((if negative then 2 ^ 31 else 0) + k)).toNat =
        (if negative then 2 ^ 31 else 0) + k := by
      rw [UInt32.toNat_ofNat']
      split <;> omega
    have hmod : ((if negative then 2 ^ 31 else 0) + k) % 2 ^ 31 = k := by
      split <;> omega
    rw [Half.floatValue, hbits, hmod]
    cases negative with
    | true =>
        have hsign : (2 ^ 31 + k) / 2 ^ 31 = 1 := by omega
        simp only [if_true, hsign]
        rfl
    | false =>
        have hsign : (0 + k) / 2 ^ 31 = 0 := by omega
        simp only [Bool.false_eq_true, if_false, hsign]
        rfl
  by_cases hzero : n = 0
  · subst hzero
    rw [halfFloat, if_pos rfl, hword 0 (by norm_num), magnitude_subnormal (by norm_num)]
    norm_num
  · have hlog : n.log2 < 24 := (Nat.log2_lt hzero).mpr hn
    have hlo : 2 ^ n.log2 ≤ n := Nat.log2_self_le hzero
    have hhi : n < 2 ^ (n.log2 + 1) := Nat.lt_log2_self
    -- the significand, without its leading bit
    have hscale : 2 ^ n.log2 * 2 ^ (23 - n.log2) = 2 ^ 23 := by
      rw [← Nat.pow_add]
      congr 1
      omega
    have hm : 2 ^ 23 ≤ n * 2 ^ (23 - n.log2) := hscale ▸ Nat.mul_le_mul_right _ hlo
    have hm' : n * 2 ^ (23 - n.log2) < 2 ^ 24 := by
      have hlt := Nat.mul_lt_mul_of_pos_right hhi (Nat.two_pow_pos (23 - n.log2))
      rw [Nat.pow_succ, Nat.mul_right_comm, hscale] at hlt
      exact hlt
    obtain ⟨m, hmeq⟩ := Nat.exists_eq_add_of_le hm
    have hpattern : (n.log2 + 125) * 2 ^ 23 + n * 2 ^ (23 - n.log2) =
        (n.log2 + 125 + 1) * 2 ^ 23 + m := by
      rw [hmeq]
      omega
    have hvalue : magnitude 23 ((n.log2 + 125 + 1) * 2 ^ 23 + m) = n * 2 ^ 148 := by
      rw [magnitude_normal (by omega), ← hmeq, Nat.mul_assoc, ← Nat.pow_add]
      congr 2
      omega
    rw [halfFloat, if_neg hzero, hpattern, hword _ (by omega), hvalue]
    push_cast
    ring

/-- One entity of a `SpawnResponse`. -/
theorem spawnEntity_sendable {i : Nat} (hi : i < 64) :
    Encodable schema entity (spawnEntity i) ∧ nest schema entity (spawnEntity i) = 1 ∧
      (encode schema entity (spawnEntity i)).length ≤ 34 := by
  have hname := entityName_length i hi
  have hposition := length_entityPosition i
  have hstring := length_encodeString_le (entityName i)
  refine ⟨?_, ?_, ?_⟩
  · refine (encodable_object schema_rewritable).mpr ?_
    simp only [schema, packetDecl, EncodableMembers, Encodable, int32, vector3, Scalar.Holds,
      Scalar.size, Scalar.width, Width.bytes, maxLength]
    exact ⟨by omega, hposition, by omega, trivial⟩
  · simp [nest, nestMembers, schema, packetDecl, entity, spawnEntity, int32]
  · simp only [encode, encodeMembers, schema, packetDecl, entity, spawnEntity, int32,
      encodeUnmanaged, vector3, length_encodeScalar, List.flatten_cons, List.flatten_nil,
      List.length_append, List.length_cons, List.length_nil, Scalar.size, Scalar.width, Width.bytes]
    omega

theorem nestEach_spawnEntity : ∀ {is : List Nat}, (∀ i ∈ is, i < 64) →
    nestEach schema entity (is.map spawnEntity) ≤ 1
  | [], _ => Nat.zero_le _
  | i :: is, h => by
      obtain ⟨hi, his⟩ := List.forall_mem_cons.mp h
      rw [List.map_cons, nestEach, (spawnEntity_sendable hi).2.1]
      exact Nat.max_le.mpr ⟨Nat.le_refl _, nestEach_spawnEntity his⟩

theorem length_encode_spawnEntities : ∀ {is : List Nat}, (∀ i ∈ is, i < 64) →
    (encodeEach schema entity (is.map spawnEntity)).flatten.length ≤ is.length * 34
  | [], _ => Nat.zero_le _
  | i :: is, h => by
      obtain ⟨hi, his⟩ := List.forall_mem_cons.mp h
      have hfirst := (spawnEntity_sendable hi).2.2
      have hrest := length_encode_spawnEntities his
      rw [List.map_cons, encodeEach, List.flatten_cons, List.length_append, List.length_cons]
      omega

theorem clampCount_le (count : Int) : clampCount count ≤ 64 := by
  unfold clampCount maxSpawnCount
  split
  · exact Nat.zero_le _
  · split
    · exact Nat.le_refl _
    · omega

theorem spawnResponse_sendable {n : Nat} (hn : n ≤ 64) : Outgoing.Sendable
    ⟨.spawnResponse, spawnResponse, .seq [.seq ((List.range n).map spawnEntity)]⟩ := by
  have hrange : ∀ i ∈ List.range n, i < 64 := by
    intro i hi
    exact Nat.lt_of_lt_of_le (List.mem_range.mp hi) hn
  have hts : (schema.decl 6).members = [.vector entity] := rfl
  refine ⟨trivial, encodable_define rfl hts ?_, ?_, ?_⟩
  · have hmax : 64 ≤ maxLength := by norm_num [maxLength]
    rw [EncodableMembers, EncodableMembers, Encodable, List.length_map, List.length_range]
    refine ⟨⟨hn.trans hmax, encodableEach_iff.mpr fun v hv => ?_⟩, trivial⟩
    obtain ⟨i, hi, rfl⟩ := List.mem_map.mp hv
    exact (spawnEntity_sendable (hrange i hi)).1
  · have hnest := nestEach_spawnEntity hrange
    show nest schema (.object 6) _ ≤ 256
    rw [nest_define rfl hts]
    simp only [nestMembers, nest]
    omega
  · have hentities := length_encode_spawnEntities hrange
    rw [List.length_range] at hentities
    show (encode schema (.object 6) _).length ≤ _
    rw [encode_define rfl hts]
    simp only [encodeMembers, encode, encodeCounted, List.flatten_cons, List.flatten_nil,
      List.append_nil, List.length_cons, List.length_append, length_le32, maxBodyLength]
    omega

theorem utcNowTicks_lt (H : Host) (k : Nat) : H.utcNowTicks k < 256 ^ 8 := by
  unfold Host.utcNowTicks
  omega

/-- Every answer can be sent and read. -/
theorem reply_sendable {q : Request} (hq : q.Decoded) {ticks : Nat} (hticks : ticks < 256 ^ 8) :
    (q.reply ticks).Sendable := by
  cases q with
  | echo seq text =>
      obtain ⟨hseq, htext⟩ := hq
      have hupper : (toUpperAscii text).length = text.length := List.length_map _
      have hstring := length_encodeString_le (toUpperAscii text)
      have hts : (schema.decl 1).members = [int32, .string, int64] := rfl
      refine ⟨trivial, encodable_define rfl hts ?_, ?_, ?_⟩
      · simp only [EncodableMembers, Encodable, int32, int64, maxLength]
        exact ⟨hseq, by omega, hticks, trivial⟩
      · rw [Request.reply, echoResponse, nest_define rfl hts]
        simp [nest, nestMembers, int32, int64]
      · rw [Request.reply, echoResponse, encode_define rfl hts]
        simp only [encode, encodeMembers, int32, int64, length_encodeScalar, List.flatten_cons,
          List.flatten_nil, List.length_append, List.length_cons, List.length_nil, Scalar.size,
          Scalar.width, Width.bytes, maxBodyLength]
        omega
  | sum values =>
      have hts : (schema.decl 3).members = [int64] := rfl
      refine ⟨trivial, encodable_define rfl hts ?_, ?_, ?_⟩
      · simp only [EncodableMembers, Encodable, int64, Scalar.Holds, Scalar.size, Scalar.width,
          Width.bytes]
        exact ⟨by omega, trivial⟩
      · rw [Request.reply, sumResponse, nest_define rfl hts]
        simp [nest, nestMembers, int64]
      · rw [Request.reply, sumResponse, encode_define rfl hts]
        simp [encode, encodeMembers, int64, length_encodeScalar, Scalar.size, Scalar.width,
          Width.bytes, maxBodyLength]
  | spawn count => exact spawnResponse_sendable (clampCount_le _)

/-! ## Requests that were decoded -/

section Decoded

variable (H : Host) {body : List UInt8}

theorem decodeBody_returns {t : Ty} {v : Val} (h : decodeBody H t body = some v) :
    ∃ r', Prog.Returns (Reader.read schema t (schema.init t)) H.build
      { data := body, options := makeReaderLimits } v r' := by
  unfold decodeBody at h
  rcases hrun : Reader.read schema t (schema.init t) H.build
    { data := body, options := makeReaderLimits } with ⟨w | e | _, r', l⟩
  · simp only [hrun] at h
    split at h
    · simp at h
    · exact ⟨r', Prog.returns_iff.mpr ⟨l, (Option.some.inj h) ▸ hrun⟩⟩
  · simp [hrun] at h
  · simp [hrun] at h

/-- A member of an `EchoRequest`. -/
def EchoMember (bound : Nat) : Ty → Val → Prop
  | .string, v => ∃ bs, v = .bytes bs ∧ bs.length ≤ bound
  | t, v => Encodable schema t v

theorem gives_echoRequest (r₀ : MemoryPackReader) :
    Gives r₀ (Reader.read schema echoRequest (schema.init echoRequest)) fun v =>
      ∃ seq text, v = .seq [.scalar seq, .bytes text] ∧ seq < 256 ^ 4 ∧
        text.length ≤ r₀.longestString := by
  have hmembers : (schema.decl 0).members = [int32, .string] := rfl
  have hinit : List.Forall₂ (EchoMember r₀.longestString) (schema.decl 0).members
      [.scalar 0, .bytes []] := by
    rw [hmembers]
    exact .cons (Scalar.holds_zero (.int true .w4)) (.cons ⟨[], rfl, Nat.zero_le _⟩ .nil)
  refine .get fun r _ => ?_
  rw [echoRequest, Reader.readTy]
  refine (Gives.define rfl ?_ hinit hinit).weaken ?_
  · rw [hmembers]
    intro t ht v _
    simp only [List.mem_cons, List.not_mem_nil, or_false] at ht
    rcases ht with rfl | rfl
    · rw [int32, Reader.readTy]
      exact (Gives.readScalar _).map fun n hn => hn
    · rw [Reader.readTy]
      refine Gives.readString.map fun o ho => ⟨_, rfl, ?_⟩
      cases o with
      | none => exact Nat.zero_le _
      | some bs => exact ho bs rfl
  · rintro w ⟨ws, rfl, hws⟩
    rw [hmembers] at hws
    cases hws with
    | cons hseq hrest =>
        cases hrest with
        | cons htext hnil =>
            cases hnil
            obtain ⟨text, rfl, htext⟩ := htext
            obtain ⟨seq, rfl, hseq⟩ := encodable_scalar hseq
            exact ⟨seq, text, rfl, hseq, htext⟩

theorem echoOf_some {o : Option Val} {q : Request} (h : echoOf o = some q) :
    ∃ seq text, o = some (.seq [.scalar seq, .bytes text]) ∧ q = .echo seq text := by
  unfold echoOf at h
  split at h
  · exact ⟨_, _, rfl, (Option.some.inj h).symm⟩
  · simp at h

theorem accepts_decoded {packet : Packet} {q : Request} (h : accepts H packet = some q) :
    q.Decoded := by
  unfold accepts at h
  split at h
  · obtain ⟨seq, text, hbody, rfl⟩ := echoOf_some h
    obtain ⟨r', hread⟩ := decodeBody_returns H hbody
    obtain ⟨-, seq', text', hval, hseq, htext⟩ := gives_echoRequest _ _ _ _ _ ⟨rfl, rfl⟩ hread
    simp only [Val.seq.injEq, List.cons.injEq, Val.scalar.injEq, Val.bytes.injEq, and_true] at hval
    obtain ⟨rfl, rfl⟩ := hval
    refine ⟨hseq, htext.trans ?_⟩
    exact Nat.mul_le_mul_left 3 (Nat.min_le_left _ _)
  · split at h
    · unfold sumOf at h
      split at h
      · split at h
        · simp at h
        · exact Option.some.inj h ▸ trivial
      · simp at h
    · split at h
      · unfold spawnOf at h
        split at h
        · exact Option.some.inj h ▸ trivial
        · simp at h
      · simp at h

theorem handleEcho_eq (p : Peer) :
    handleEcho H body p = respond H p (echoOf (decodeBody H echoRequest body)) := by
  unfold handleEcho
  split
  · next heq => rw [heq, echoOf, respond, Request.reply, Request.readings]
  · next hne =>
      have hnone : echoOf (decodeBody H echoRequest body) = none := by
        unfold echoOf
        split
        · next heq => exact (hne _ _ heq).elim
        · rfl
      rw [hnone, respond]

theorem handleSum_eq (p : Peer) :
    handleSum H body p = respond H p (sumOf (decodeBody H sumRequest body)) := by
  unfold handleSum
  split
  · next values heq =>
      have hsum : (values.map fun v => asInt32 v.bits) =
          (values.map Val.bits).map fun v : Nat => asInt32 v := by
        simp only [List.map_map, Function.comp_def]
      rw [heq, sumOf]
      split
      · rw [respond]
      · simp only [hsum, respond, Request.reply, Request.readings, Nat.add_zero]
  · next hne =>
      have hnone : sumOf (decodeBody H sumRequest body) = none := by
        unfold sumOf
        split
        · next heq => exact (hne _ heq).elim
        · rfl
      rw [hnone, respond]

theorem handleSpawn_eq (p : Peer) :
    handleSpawn H body p = respond H p (spawnOf (decodeBody H spawnRequest body)) := by
  unfold handleSpawn
  split
  · next heq => simp only [heq, spawnOf, respond, Request.reply, Request.readings, Nat.add_zero]
  · next hne =>
      have hnone : spawnOf (decodeBody H spawnRequest body) = none := by
        unfold spawnOf
        split
        · next heq => exact (hne _ heq).elim
        · rfl
      rw [hnone, respond]

/-- `HandlePacket` answers the request of a frame, or refuses it. -/
theorem handlePacket_eq (packet : Packet) (p : Peer) :
    handlePacket H packet.1 packet.2 p = respond H p (accepts H packet) := by
  unfold handlePacket accepts
  split
  · exact handleEcho_eq H p
  · split
    · exact handleSum_eq H p
    · split
      · exact handleSpawn_eq H p
      · rw [respond]

end Decoded

/-! ## Requests within the limits -/

section Within

variable {B : Build} {r : MemoryPackReader} {s : List UInt8}

/-- A string within `maxStringLength`. -/
theorem readString_within {bs : List UInt8} (he : r.error = .none)
    (hrest : r.rest = encodeString bs ++ s)
    (hlimit : bs.length ≤ r.options.maxStringLength.toNat) (hmax : bs.length ≤ maxLength) :
    Prog.Returns Reader.readString B r (some bs)
      { r with pos := r.pos + (encodeString bs).length } := by
  have hmax' : bs.length < 2 ^ 31 := by
    unfold maxLength at hmax
    omega
  have hword : ∀ i : Int, (le32 i).length = 4 := length_le32
  unfold encodeString at hrest ⊢
  split at hrest
  · next hnil =>
      have hbs : bs = [] := List.isEmpty_iff.mp hnil
      subst hbs
      have h4 : 4 ≤ r.remaining := by
        rw [CanRead.remaining hrest, hword]
        omega
      have hhead : leNat (r.rest.take 4) = 0 := by
        rw [hrest, List.take_left' (hword 0)]
        rfl
      rw [Reads.readString_eq, if_pos hnil, hword]
      refine (Prog.returns_iff.mpr ⟨_, Reader.readRaw_ok he h4⟩).bind ?_
      have hzero : asInt32 0 = 0 := by decide
      have hnot : ({ r with pos := r.pos + 4 } : MemoryPackReader).failed = false := by
        simp [MemoryPackReader.failed, he]
      rw [hhead, Reads.stringPayload]
      simp [Prog.Returns, Reader.failed, hnot, hzero]
  · next hne =>
      have hpos : 0 < bs.length := by
        rw [List.isEmpty_iff] at hne
        exact List.length_pos_iff.mpr hne
      have hrem := CanRead.remaining hrest
      rw [List.length_append, List.length_append, hword, hword] at hrem
      have hpayload : Utf8Payload r bs := by
        refine ⟨?_, hpos, by omega, ?_, hlimit⟩
        · rw [stringHeader, hrest, List.append_assoc, List.take_left' (hword _), le32,
            leNat_leBytes (int32Bits_lt _), Reads.asInt32_int32Bits (by omega) (by omega)]
        · rw [hrest, ← List.append_assoc, List.append_assoc _ bs, List.drop_left' (by simp [hword]),
            List.take_left]
      have hread := readString_utf8 (B := B) he hpayload
      rw [if_neg hne, List.length_append, List.length_append, hword, hword]
      have hlen : r.pos + 8 + bs.length = r.pos + (4 + (4 + bs.length)) := by omega
      rw [← hlen]
      exact hread

/-- A list of `int32_t` within `maxCollectionLength`. -/
theorem readVector_within {ns : List Nat} (he : r.error = .none) (hsize : r.size < B.sizeMod)
    (hrest : r.rest = encodeCounted (ns.map (leBytes 4)) ++ s)
    (hlimit : ns.length ≤ r.options.maxCollectionLength.toNat) (hmax : ns.length ≤ maxLength)
    (hns : ∀ n ∈ ns, n < 256 ^ 4) :
    ∃ r', Prog.Returns (Reader.readVector 4) B r ns r' ∧ r'.error = .none := by
  have hmax' : ns.length < 2 ^ 31 := by
    unfold maxLength at hmax
    omega
  have hword : (le32 ns.length).length = 4 := length_le32 _
  have hbytes := length_flatten_leBytes 4 ns
  rw [Reads.encodeCounted_leBytes, List.append_assoc] at hrest
  have hrem := CanRead.remaining hrest
  rw [hword, List.length_append, hbytes] at hrem
  have hhead : (ns.length : Int) = asInt32 (leNat (r.rest.take 4)) := by
    rw [hrest, List.take_left' hword, le32, leNat_leBytes (int32Bits_lt _),
      Reads.asInt32_int32Bits (by omega) (by omega)]
  -- the reader behind the length
  set r₁ : MemoryPackReader := { r with pos := r.pos + 4 } with hr₁
  have he₁ : r₁.error = .none := he
  have hrest₁ : r₁.rest = (ns.map (leBytes 4)).flatten ++ s := by
    rw [hr₁, Reader.rest_add, hrest, List.drop_left' hword]
  have hrem₁ : ns.length * 4 ≤ r₁.remaining := by
    rw [CanRead.remaining hrest₁, hbytes]
    exact Nat.le_add_right _ _
  have hok : Reader.LengthOk 4 ns.length r₁ := by
    refine ⟨by omega, hlimit, fun _ => ?_⟩
    rw [Int.toNat_natCast, Nat.le_div_iff_mul_le (by decide)]
    exact hrem₁
  obtain ⟨l, hlen⟩ := Reader.readCollectionLength_ok (B := B) he (by omega) hhead (.inr hok)
  have hfirst : Prog.Returns (Reader.readCollectionLength 4) B r (ns.length : Int) r₁ :=
    Prog.returns_iff.mpr ⟨l, hlen⟩
  unfold Reader.readVector
  by_cases hempty : ns = []
  · subst hempty
    refine ⟨r₁, hfirst.bind ?_, he⟩
    rw [if_pos (by simp)]
    exact Prog.returns_pure
  · have hpos := List.length_pos_iff.mpr hempty
    have hle : r₁.remaining ≤ r.size := Nat.sub_le _ _
    have hlt : ns.length * 4 < B.sizeMod := by omega
    obtain ⟨l', hread⟩ := Reader.readContiguous_ok (B := B) 4 ns.length he₁ hrem₁ hlt
    rw [hrest₁, splitWords_leBytes hns] at hread
    refine ⟨{ r₁ with pos := r₁.pos + ns.length * 4 }, hfirst.bind ?_, he⟩
    rw [if_neg (by omega)]
    simp only [Prog.Returns, Int.toNat_natCast, Prog.bind_apply, Reader.sizeProduct_apply,
      Nat.mod_eq_of_lt hlt, Res.bind_ret, Reader.ensureBytes_ok he₁ hrem₁, Bool.not_true,
      Bool.false_eq_true, if_false, Prog.get_apply, Prog.tell_apply, hread, Res.after_mk]
    exact ⟨trivial, trivial⟩

theorem readInt32_within {v : Val} {S : Schema} {named : Nat → Val → ReadM Val} {n : Nat}
    (he : r.error = .none) (hrest : r.rest = leBytes 4 n ++ s) (hn : n < 256 ^ 4) :
    Prog.Returns (Reader.readTy S named int32 v) B r (.scalar n) { r with pos := r.pos + 4 } := by
  have h4 : 4 ≤ r.remaining := by
    rw [CanRead.remaining hrest, length_leBytes]
    exact Nat.le_add_right _ _
  have hword : leNat (r.rest.take 4) = n := by
    rw [hrest, List.take_left' (length_leBytes 4 n), leNat_leBytes hn]
  rw [int32, Reader.readTy]
  refine (Prog.returns_iff.mpr ⟨_, Reader.readRaw_ok he h4⟩).bind ?_
  rw [hword]
  exact Prog.returns_pure

end Within

section Accepted

variable (H : Host)

/-- `DecodeBody` of a written packet, over what its members give. -/
theorem decodeBody_encode {i : Nat} {ts : List Ty} {ws : List Val}
    (hk : (schema.decl i).kind = .define) (hts : (schema.decl i).members = ts)
    (hn : ts.length ≤ 249)
    (hmembers : ∀ r named, r.error = .none → r.options = makeReaderLimits →
      r.size = (encode schema (.object i) (.seq ws)).length →
      r.rest = (encodeMembers schema ts ws).flatten ++ [] →
        ∃ r', Prog.Returns (Reader.readMembers schema (Reader.readTy schema named) ts.length 0 ts
          (schema.decl i).init) H.build r ws r' ∧ r'.error = .none) :
    decodeBody H (.object i) (encode schema (.object i) (.seq ws)) = some (.seq ws) := by
  set r : MemoryPackReader :=
    { data := encode schema (.object i) (.seq ws), options := makeReaderLimits } with hr
  have hrest : r.rest = UInt8.ofNat ts.length :: (encodeMembers schema ts ws).flatten :=
    encode_define hk hts
  have h1 : 1 ≤ r.remaining :=
    CanRead.le_remaining (show r.rest = [UInt8.ofNat ts.length] ++ _ from hrest)
  have hhead : r.rest.headD 0 = UInt8.ofNat ts.length := by
    rw [hrest]
    rfl
  have hcount : (UInt8.ofNat ts.length).toNat = ts.length := by
    rw [UInt8.toNat_ofNat']
    omega
  have hheader := Reader.readObjectHeader_ok (B := H.build) (r := r) rfl h1
    (hhead ▸ ofNat_le_maxMemberCount hn)
  rw [hhead] at hheader
  set r₁ : MemoryPackReader := { r with pos := r.pos + 1 } with hr₁
  have hrest₁ : r₁.entered.rest = (encodeMembers schema ts ws).flatten ++ [] := by
    have h := Reader.rest_add r 1
    rw [hrest] at h
    rw [List.append_nil]
    exact h
  obtain ⟨r₂, hread, he₂⟩ :=
    hmembers r₁.entered (Reader.readObject schema r.size) rfl rfl rfl hrest₁
  obtain ⟨l, hread⟩ := Prog.returns_iff.mp hread
  have hleft : r₂.left.failed = false := by
    have herror : r₂.left.error = .none := by
      unfold MemoryPackReader.left
      split <;> exact he₂
    simp [MemoryPackReader.failed, herror]
  have hopen : ¬ r₁.depth + 1 > r₁.options.maxDepth := by
    rw [hr₁, hr]
    simp [makeReaderLimits]
  have hinit : (schema.init (.object i)).items = (schema.decl i).init := by
    rw [Schema.init]
    rfl
  have hrun : ∃ l, Reader.read schema (.object i) (schema.init (.object i)) H.build r =
      ⟨.ret (.seq ws), r₂.left, l⟩ := by
    rw [Reader.read, Prog.bind_apply, Prog.get_apply, Res.bind_ret, Res.after_nil, Reader.readTy,
      Reader.readObject_define hk, Reader.defineDeserialize, Prog.bind_apply, hheader, Res.bind_ret,
      if_neg (by simp), hcount, hts, hinit, Reader.objectBody_open hopen, hread, Res.bind_ret]
    exact ⟨_, rfl⟩
  obtain ⟨l', hrun⟩ := hrun
  simp only [decodeBody, ← hr, hrun, hleft, Bool.false_eq_true, if_false]

theorem decodeBody_echo {seq : Nat} {text : List UInt8} (hseq : seq < 256 ^ 4)
    (htext : text.length ≤ 4096) :
    decodeBody H echoRequest (encode schema echoRequest (.seq [.scalar seq, .bytes text])) =
      some (.seq [.scalar seq, .bytes text]) := by
  have hts : (schema.decl 0).members = [int32, .string] := rfl
  refine decodeBody_encode H rfl hts (by decide) ?_
  intro r named he hoptions _ hrest
  have hparts : r.rest = leBytes 4 seq ++ (encodeString text ++ []) := by
    rw [hrest, List.append_nil, List.append_nil]
    simp [encodeMembers, encode, int32, encodeScalar, Scalar.size, Scalar.width, Width.bytes]
  have hmax : 4096 ≤ maxLength := by norm_num [maxLength]
  set r₁ : MemoryPackReader := { r with pos := r.pos + 4 } with hr₁
  have hrest₁ : r₁.rest = encodeString text ++ [] := by
    rw [hr₁, Reader.rest_add, hparts, List.drop_left' (length_leBytes 4 seq)]
  have hlimit : text.length ≤ r₁.options.maxStringLength.toNat := by
    show text.length ≤ r.options.maxStringLength.toNat
    rw [hoptions]
    exact htext
  have hstring := readString_within (B := H.build) (r := r₁) he hrest₁ hlimit (htext.trans hmax)
  have hdeserialize : Prog.Returns Reader.stringDeserialize H.build r₁ (.bytes text)
      { r₁ with pos := r₁.pos + (encodeString text).length } := hstring.bind Prog.returns_pure
  refine ⟨{ r₁ with pos := r₁.pos + (encodeString text).length }, ?_, he⟩
  rw [Reader.readMembers, if_pos (by decide)]
  refine (readInt32_within he hparts hseq).bind ?_
  rw [Reader.readMembers, if_pos (by decide), Reader.readTy, Reader.readMembers]
  refine Prog.Returns.bind ?_ Prog.returns_pure
  exact hdeserialize.bind (Prog.returns_pure.bind Prog.returns_pure)

theorem encodeEach_int32 (values : List Nat) :
    encodeEach schema int32 (values.map .scalar) = values.map (leBytes 4) := by
  rw [encodeEach_eq, List.map_map]
  rfl

theorem decodeBody_sum {values : List Nat} (hlen : values.length ≤ 4096)
    (hvalues : ∀ n ∈ values, n < 256 ^ 4) :
    decodeBody H sumRequest (encode schema sumRequest (.seq [.seq (values.map .scalar)])) =
      some (.seq [.seq (values.map .scalar)]) := by
  have hmax : 4096 ≤ maxLength := by norm_num [maxLength]
  have hts : (schema.decl 2).members = [.vector int32] := rfl
  have hencode : encode schema (.object 2) (.seq [.seq (values.map .scalar)]) =
      1 :: (encodeCounted (values.map (leBytes 4)) ++ []) := by
    rw [encode_define rfl hts]
    simp only [encodeMembers, encode, encodeEach_int32, List.flatten_cons, List.flatten_nil]
    rfl
  refine decodeBody_encode H rfl hts (by decide) ?_
  intro r named he hoptions hsize hrest
  have hparts : r.rest = encodeCounted (values.map (leBytes 4)) ++ [] := by
    rw [hrest, List.append_nil, List.append_nil]
    simp only [encodeMembers, encode, encodeEach_int32, List.flatten_cons, List.flatten_nil,
      List.append_nil]
  have hlimit : values.length ≤ r.options.maxCollectionLength.toNat := by
    rw [hoptions]
    exact hlen
  have hfits : r.size < H.build.sizeMod := by
    have hbits : 2 ^ 32 ≤ H.build.sizeMod := by
      unfold Build.sizeMod
      cases H.build.size <;> norm_num [SizeWidth.bits]
    have hbytes := length_flatten_leBytes 4 values
    rw [hsize, hencode, Reads.encodeCounted_leBytes, List.length_cons, List.append_nil,
      List.length_append, length_le32, hbytes]
    omega
  obtain ⟨r', hread, he'⟩ := readVector_within (B := H.build) he hfits hparts hlimit
    (hlen.trans hmax) hvalues
  refine ⟨r', ?_, he'⟩
  have hvector : Prog.Returns (Reader.readTy schema named (.vector int32) (.seq [])) H.build r
      (.seq (values.map .scalar)) r' := by
    rw [Reader.readTy]
    refine Prog.Returns.bind ?_ Prog.returns_pure
    exact hread.bind Prog.returns_pure
  rw [Reader.readMembers, if_pos (by decide), Reader.readMembers]
  exact hvector.bind (Prog.returns_pure.bind Prog.returns_pure)

theorem decodeBody_spawn {count : Nat} (hcount : count < 256 ^ 4) :
    decodeBody H spawnRequest (encode schema spawnRequest (.seq [.scalar count])) =
      some (.seq [.scalar count]) := by
  have hts : (schema.decl 5).members = [int32] := rfl
  refine decodeBody_encode H rfl hts (by decide) ?_
  intro r named he _ _ hrest
  have hparts : r.rest = leBytes 4 count ++ [] := by
    rw [hrest, List.append_nil, List.append_nil]
    simp [encodeMembers, encode, int32, encodeScalar, Scalar.size, Scalar.width, Width.bytes]
  refine ⟨{ r with pos := r.pos + 4 }, ?_, he⟩
  rw [Reader.readMembers, if_pos (by decide), Reader.readMembers]
  exact (readInt32_within he hparts hcount).bind (Prog.returns_pure.bind Prog.returns_pure)

theorem accepts_echo (body : List UInt8) :
    accepts H (PacketId.echoRequest.toUInt16, body) = echoOf (decodeBody H echoRequest body) :=
  if_pos rfl

theorem accepts_sum (body : List UInt8) :
    accepts H (PacketId.sumRequest.toUInt16, body) = sumOf (decodeBody H sumRequest body) := by
  have hne : PacketId.sumRequest.toUInt16 ≠ PacketId.echoRequest.toUInt16 := by decide
  rw [accepts, if_neg hne, if_pos rfl]

theorem accepts_spawn (body : List UInt8) :
    accepts H (PacketId.spawnRequest.toUInt16, body) =
      spawnOf (decodeBody H spawnRequest body) := by
  have hne : PacketId.spawnRequest.toUInt16 ≠ PacketId.echoRequest.toUInt16 := by decide
  have hne' : PacketId.spawnRequest.toUInt16 ≠ PacketId.sumRequest.toUInt16 := by decide
  rw [accepts, if_neg hne, if_neg hne', if_pos rfl]

/-- A request within the limits is accepted. -/
theorem accepts_outgoing {q : Request} (hq : q.WithinLimits) :
    accepts H (q.outgoing.id.toUInt16, encode schema q.outgoing.ty q.outgoing.value) = some q := by
  cases q with
  | echo seq text =>
      rw [Request.outgoing, accepts_echo, decodeBody_echo H hq.1 hq.2, echoOf]
  | sum values =>
      have hback : (values.map Val.scalar).map Val.bits = values := by
        simp [Function.comp_def, Val.bits]
      have hlen : ¬ (values.map Val.scalar).length > maxSumValues := by
        rw [List.length_map]
        exact Nat.not_lt.mpr hq.1
      rw [Request.outgoing, accepts_sum, decodeBody_sum H hq.1 hq.2, sumOf, if_neg hlen, hback]
  | spawn count =>
      rw [Request.outgoing, accepts_spawn, decodeBody_spawn H hq, spawnOf]

theorem outgoing_sendable {q : Request} (hq : q.WithinLimits) : q.outgoing.Sendable := by
  cases q with
  | echo seq text =>
      obtain ⟨hseq, htext⟩ := hq
      have hstring := length_encodeString_le text
      have hts : (schema.decl 0).members = [int32, .string] := rfl
      refine ⟨trivial, encodable_define rfl hts ?_, ?_, ?_⟩
      · simp only [EncodableMembers, Encodable, int32, maxLength]
        exact ⟨hseq, by omega, trivial⟩
      · rw [Request.outgoing, echoRequest, nest_define rfl hts]
        simp [nest, nestMembers, int32]
      · rw [Request.outgoing, echoRequest, encode_define rfl hts]
        simp only [encode, encodeMembers, int32, length_encodeScalar, List.flatten_cons,
          List.flatten_nil, List.length_append, List.length_cons, List.length_nil, Scalar.size,
          Scalar.width, Width.bytes, maxBodyLength]
        omega
  | sum values =>
      obtain ⟨hlen, hvalues⟩ := hq
      have hts : (schema.decl 2).members = [.vector int32] := rfl
      have hbytes := length_flatten_leBytes 4 values
      have hnest : ∀ ns : List Nat, nestEach schema int32 (ns.map .scalar) = 0 := by
        intro ns
        induction ns with
        | nil => simp [nestEach]
        | cons n ns ih =>
            rw [List.map_cons, nestEach, ih]
            simp [nest, int32]
      have hmax : 4096 ≤ maxLength := by norm_num [maxLength]
      refine ⟨trivial, encodable_define rfl hts ?_, ?_, ?_⟩
      · rw [EncodableMembers, EncodableMembers, Encodable, List.length_map]
        refine ⟨⟨hlen.trans hmax, encodableEach_iff.mpr fun v hv => ?_⟩, trivial⟩
        obtain ⟨n, hn, rfl⟩ := List.mem_map.mp hv
        exact hvalues n hn
      · rw [Request.outgoing, sumRequest, nest_define rfl hts]
        simp [nestMembers, nest, hnest]
      · rw [Request.outgoing, sumRequest, encode_define rfl hts]
        simp only [encodeMembers, encode, encodeEach_int32, Reads.encodeCounted_leBytes,
          List.flatten_cons, List.flatten_nil, List.append_nil, List.length_cons, List.length_append, length_le32,
          hbytes, maxBodyLength]
        omega
  | spawn count =>
      have hts : (schema.decl 5).members = [int32] := rfl
      refine ⟨trivial, encodable_define rfl hts ?_, ?_, ?_⟩
      · simp only [EncodableMembers, Encodable, int32]
        exact ⟨hq, trivial⟩
      · rw [Request.outgoing, spawnRequest, nest_define rfl hts]
        simp [nest, nestMembers, int32]
      · rw [Request.outgoing, spawnRequest, encode_define rfl hts]
        simp [encode, encodeMembers, int32, length_encodeScalar, Scalar.size, Scalar.width,
          Width.bytes, maxBodyLength]

theorem Request.WithinLimits.decoded {q : Request} (h : q.WithinLimits) : q.Decoded := by
  cases q with
  | echo seq text => exact ⟨h.1, h.2.trans (by decide)⟩
  | sum values => trivial
  | spawn count => trivial

theorem served_outgoing : ∀ {qs : List Request}, (∀ q ∈ qs, q.WithinLimits) →
    served H (qs.map fun q => (q.outgoing.id.toUInt16,
      encode schema q.outgoing.ty q.outgoing.value)) = qs
  | [], _ => rfl
  | q :: qs, hqs => by
      obtain ⟨hq, hrest⟩ := List.forall_mem_cons.mp hqs
      rw [List.map_cons, served, accepts_outgoing H hq]
      exact congrArg (q :: ·) (served_outgoing hrest)

end Accepted

end MemoryPack.CppServer
