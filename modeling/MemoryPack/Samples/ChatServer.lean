import Mathlib.Data.List.Nodup
import Mathlib.Logic.Function.Basic

/-!
# The chat server

`samples/ChatServer` runs one thread for each client. The threads share the table of users
and the rooms behind `globalLock`; what a handler works out before it takes the lock, and the
responses it sends behind it, interleave with all the other threads.

Two models. `Server` has a thread for each session, the lock, and the packets that are still
to be sent under it; a step is a step of one thread. `Chat` serves whole events one at a
time, and is what the server is for. `linearizable` says that every interleaving of the
first is a run of the second, and `Safe` what holds in every state of it.

A session is the number of its connection. The order in which a `HashSet` is enumerated is
unspecified; here it is the order of insertion. A packet is written by `SendPacket` under the
session's own lock, in one piece.
-/

namespace MemoryPack.ChatServer

/-! ## Packets -/

/-- What the server sends. -/
inductive ServerPacket where
  | loginResponse (success : Bool) (message : String)
  | roomJoinResponse (success : Bool) (existingUsers : List String)
  | roomChat (senderName message : String)
  | privateChat (senderName targetName message : String)
  | userEntered (username : String)
  | userLeft (username : String)
deriving DecidableEq, Repr

/-- The packets that a handler sends behind the lock, to its own session. -/
def ServerPacket.isResponse : ServerPacket → Bool
  | .loginResponse _ _ => true
  | .roomJoinResponse _ _ => true
  | _ => false

/-- What a client sends; a null object and a null text are both `none`. -/
inductive Request where
  | loginRequest (username : Option String)
  | roomJoinRequest (roomName : Option String)
  | roomChat (message : Option String)
  | privateChat (targetName message : Option String)
  /-- an id without a handler -/
  | unexpected
deriving DecidableEq, Repr

/-- `char.IsWhiteSpace`. -/
def isWhiteSpace (c : Char) : Bool :=
  let n := c.toNat
  (9 ≤ n && n ≤ 13) || n = 0x20 || n = 0x85 || n = 0xA0 || n = 0x1680 ||
    (0x2000 ≤ n && n ≤ 0x200A) || n = 0x2028 || n = 0x2029 || n = 0x202F || n = 0x205F ||
    n = 0x3000

/-- `string.IsNullOrWhiteSpace` of a text. -/
def isNullOrWhiteSpace (text : String) : Bool := text.toList.all isWhiteSpace

/-! ## What the lock protects -/

structure ClientSession where
  username : Option String := none
  currentRoom : Option String := none
deriving DecidableEq, Repr

/-- `session.Username ?? ""`. -/
def ClientSession.name (x : ClientSession) : String := x.username.getD ""

structure Shared where
  session : Nat → ClientSession := fun _ => {}
  loggedInUsers : String → Option Nat := fun _ => none
  rooms : String → Option (List Nat) := fun _ => none

/-- A packet, and the sessions that it is sent to, one after the other. -/
structure Sending where
  packet : ServerPacket
  recipients : List Nat
deriving DecidableEq, Repr

/-- The calls of `TrySendPacket`. -/
def Sending.calls (x : Sending) : List (Nat × ServerPacket) :=
  x.recipients.map fun m => (m, x.packet)

namespace Shared

variable (g : Shared)

def setUsername (s : Nat) (username : String) : Shared :=
  let x := { g.session s with username := some username }
  { g with session := Function.update g.session s x }

def setCurrentRoom (s : Nat) (room : Option String) : Shared :=
  let x := { g.session s with currentRoom := room }
  { g with session := Function.update g.session s x }

/-- `LeaveCurrentRoom`. -/
def leaveCurrentRoom (s : Nat) : Shared × List Sending :=
  match (g.session s).currentRoom with
  | none => (g, [])
  | some name =>
      match g.rooms name with
      | none => (g.setCurrentRoom s none, [])
      | some room =>
          let left := room.erase s
          ({ g.setCurrentRoom s none with
              rooms := Function.update g.rooms name (if left.isEmpty then none else some left) },
            [⟨.userLeft (g.session s).name, left⟩])

/-- The locked part of `HandleLogin`, and the response. -/
def handleLogin (s : Nat) (username : String) : Shared × ServerPacket :=
  if isNullOrWhiteSpace username then (g, .loginResponse false "Empty username")
  else if (g.loggedInUsers username).isSome then
    (g, .loginResponse false "Username already in use")
  else
    ({ g.setUsername s username with
        loggedInUsers := Function.update g.loggedInUsers username (some s) },
      .loginResponse true "OK")

/-- The locked part of `HandleRoomJoin` behind `LeaveCurrentRoom`. -/
def enterRoom (s : Nat) (roomName : String) : Shared × List Sending × ServerPacket :=
  let room := (g.rooms roomName).getD []
  let existingUsers := room.filterMap fun m => (g.session m).username
  let room' := if s ∈ room then room else room ++ [s]
  ({ g.setCurrentRoom s (some roomName) with
      rooms := Function.update g.rooms roomName (some room') },
    [⟨.userEntered (g.session s).name, room'.filter fun m => m ≠ s⟩],
    .roomJoinResponse true existingUsers)

/-- The locked part of `HandleRoomJoin`, and the response. -/
def handleRoomJoin (s : Nat) (roomName : String) : Shared × List Sending × ServerPacket :=
  let left := g.leaveCurrentRoom s
  let entered := left.1.enterRoom s roomName
  (entered.1, left.2 ++ entered.2.1, entered.2.2)

/-- The locked part of `HandleRoomChat`. -/
def handleRoomChat (s : Nat) (senderName message : String) : List Sending :=
  match (g.session s).currentRoom.bind g.rooms with
  | none => []
  | some room => [⟨.roomChat senderName message, room⟩]

/-- The locked part of `HandlePrivateChat`: the target, and the echo to the sender. -/
def handlePrivateChat (s : Nat) (senderName targetName message : String) : List Sending :=
  [⟨.privateChat senderName targetName message, (g.loggedInUsers targetName).toList ++ [s]⟩]

/-- The locked part of `HandleDisconnect`. -/
def handleDisconnect (s : Nat) : Shared × List Sending :=
  let removed : Shared :=
    match (g.session s).username with
    | none => g
    | some username =>
        { g with loggedInUsers := Function.update g.loggedInUsers username none }
  removed.leaveCurrentRoom s

end Shared

/-! ## Threads -/

/-- A handler on its way to the lock, with what it has worked out so far. -/
inductive Section where
  | login (username : String)
  | roomJoin (roomName : String)
  | roomChat (senderName message : String)
  | privateChat (senderName targetName message : String)
  | disconnect
deriving DecidableEq, Repr

/-- What a handler does in front of the lock; `none` is a handler that does not take it. -/
def Request.toSection (x : ClientSession) : Request → Option Section
  | .loginRequest username => some (.login (username.getD ""))
  | .roomJoinRequest roomName => some (.roomJoin (roomName.getD "default"))
  | .roomChat message =>
      if x.currentRoom = none then none else some (.roomChat x.name (message.getD ""))
  | .privateChat targetName message =>
      some (.privateChat x.name (targetName.getD "") (message.getD ""))
  | .unexpected => none

/-- What a thread does next. -/
inductive Phase where
  | absent
  /-- the loop of `HandleClient` -/
  | reading
  | waiting (c : Section)
  /-- the `SendPacket` behind the lock -/
  | responding (packet : ServerPacket)
  | closed
deriving DecidableEq, Repr

/-- The locked part of a handler: the state, what is sent under the lock, and how the thread
goes on. -/
def Section.run (g : Shared) (s : Nat) : Section → Shared × List Sending × Phase
  | .login username =>
      ((g.handleLogin s username).1, [], .responding (g.handleLogin s username).2)
  | .roomJoin roomName =>
      let r := g.handleRoomJoin s roomName
      (r.1, r.2.1, .responding r.2.2)
  | .roomChat senderName message => (g, g.handleRoomChat s senderName message, .reading)
  | .privateChat senderName targetName message =>
      (g, g.handlePrivateChat s senderName targetName message, .reading)
  | .disconnect =>
      let r := g.handleDisconnect s
      (r.1, r.2, .closed)

/-- The holder of `globalLock` and the packets it has yet to send. -/
structure Lock where
  owner : Nat
  pending : List (Nat × ServerPacket)
deriving DecidableEq, Repr

structure Server where
  shared : Shared := {}
  phase : Nat → Phase := fun _ => .absent
  globalLock : Option Lock := none
  /-- the calls of `SendPacket` for each session, in the order of its `WriteLock` -/
  written : Nat → List ServerPacket := fun _ => []

inductive Action where
  /-- `AcceptTcpClient` -/
  | accept (s : Nat)
  | receive (s : Nat) (request : Request)
  /-- the end of the stream, or an exception of `ReadExact` or `Deserialize` -/
  | fail (s : Nat)
  | enter (s : Nat)
  /-- one `TrySendPacket` under the lock -/
  | send
  | release
  /-- the `SendPacket` behind the lock, which may throw -/
  | respond (s : Nat) (ok : Bool)
deriving DecidableEq, Repr

namespace Server

variable (st : Server)

/-- The thread is not inside the lock. -/
def Free (s : Nat) : Prop := ∀ l, st.globalLock = some l → l.owner ≠ s

instance (s : Nat) : Decidable (st.Free s) :=
  match h : st.globalLock with
  | none => .isTrue fun _ hl => by rw [h] at hl; cases hl
  | some l =>
      if ho : l.owner = s then .isFalse fun hf => hf l h ho
      else .isTrue fun l' hl => by rw [h] at hl; cases hl; exact ho

def setPhase (s : Nat) (p : Phase) : Server :=
  { st with phase := Function.update st.phase s p }

def write (s : Nat) (packet : ServerPacket) : Server :=
  { st with written := Function.update st.written s (st.written s ++ [packet]) }

/-- A thread takes the lock, runs the locked part of its handler up to the packets to send. -/
def lockAndRun (s : Nat) (c : Section) : Server :=
  let r := c.run st.shared s
  { st.setPhase s r.2.2 with
    shared := r.1, globalLock := some ⟨s, r.2.1.flatMap Sending.calls⟩ }

/-- One step of one thread, or of the listener. -/
def step : Action → Option Server
  | .accept s => if st.phase s = .absent then some (st.setPhase s .reading) else none
  | .receive s request =>
      if st.phase s = .reading ∧ st.Free s then
        match request.toSection (st.shared.session s) with
        | some c => some (st.setPhase s (.waiting c))
        | none => some st
      else none
  | .fail s =>
      if st.phase s = .reading ∧ st.Free s then some (st.setPhase s (.waiting .disconnect))
      else none
  | .enter s =>
      match st.phase s, st.globalLock with
      | .waiting c, none => some (st.lockAndRun s c)
      | _, _ => none
  | .send =>
      match st.globalLock with
      | some ⟨owner, (m, packet) :: pending⟩ =>
          some { st.write m packet with globalLock := some ⟨owner, pending⟩ }
      | _ => none
  | .release =>
      match st.globalLock with
      | some ⟨_, []⟩ => some { st with globalLock := none }
      | _ => none
  | .respond s ok =>
      match st.phase s with
      | .responding packet =>
          if st.Free s then
            -- an exception leaves `HandleClient` for its `finally`
            some ((st.write s packet).setPhase s (if ok then .reading else .waiting .disconnect))
          else none
      | _ => none

/-- The steps `as`, in this order, lead to `st'`. -/
inductive Runs : List Action → Server → Prop
  | start : Runs [] {}
  | snoc {as : List Action} {st st' : Server} (h : Runs as st) (a : Action)
      (hstep : st.step a = some st') : Runs (as ++ [a]) st'

end Server

/-! ## One event at a time -/

/-- What a client does that the others may notice. -/
inductive Event where
  | request (r : Request)
  | disconnect
deriving DecidableEq, Repr

def Event.toSection (x : ClientSession) : Event → Option Section
  | .request r => r.toSection x
  | .disconnect => some .disconnect

/-- A chat without threads: each event is served completely before the next one. -/
structure Chat where
  shared : Shared := {}
  sendings : List Sending := []
  responses : List (Nat × ServerPacket) := []

def Phase.response : Phase → Option ServerPacket
  | .responding packet => some packet
  | _ => none

def Chat.serve (c : Chat) (e : Nat × Event) : Chat :=
  match e.2.toSection (c.shared.session e.1) with
  | none => c
  | some x =>
      let r := x.run c.shared e.1
      { shared := r.1, sendings := c.sendings ++ r.2.1,
        responses := c.responses ++ (r.2.2.response.map fun p => (e.1, p)).toList }

def Chat.run (log : List (Nat × Event)) : Chat := log.foldl Chat.serve {}

/-- The part of a sequence that belongs to session `s`. -/
def partOf {β : Type} (s : Nat) (l : List (Nat × β)) : List β :=
  (l.filter fun x => x.1 = s).map Prod.snd

/-- The event that a step begins to handle. -/
def Action.event : Action → Option (Nat × Event)
  | .receive s r => some (s, .request r)
  | .fail s => some (s, .disconnect)
  | .respond s false => some (s, .disconnect)
  | _ => none

/-! ## What a step can do -/

namespace Server

/-- The steps, one constructor for each outcome. -/
inductive Step : Server → Action → Server → Prop
  | accept {st : Server} {s : Nat} (h : st.phase s = .absent) :
      Step st (.accept s) (st.setPhase s .reading)
  | receive {st : Server} {s : Nat} {request : Request} {c : Section}
      (h : st.phase s = .reading) (hfree : st.Free s)
      (hc : request.toSection (st.shared.session s) = some c) :
      Step st (.receive s request) (st.setPhase s (.waiting c))
  | ignore {st : Server} {s : Nat} {request : Request} (h : st.phase s = .reading)
      (hfree : st.Free s) (hc : request.toSection (st.shared.session s) = none) :
      Step st (.receive s request) st
  | fail {st : Server} {s : Nat} (h : st.phase s = .reading) (hfree : st.Free s) :
      Step st (.fail s) (st.setPhase s (.waiting .disconnect))
  | enter {st : Server} {s : Nat} {c : Section} (h : st.phase s = .waiting c)
      (hlock : st.globalLock = none) : Step st (.enter s) (st.lockAndRun s c)
  | send {st : Server} {owner m : Nat} {packet : ServerPacket}
      {pending : List (Nat × ServerPacket)}
      (hlock : st.globalLock = some ⟨owner, (m, packet) :: pending⟩) :
      Step st .send { st.write m packet with globalLock := some ⟨owner, pending⟩ }
  | release {st : Server} {owner : Nat} (hlock : st.globalLock = some ⟨owner, []⟩) :
      Step st .release { st with globalLock := none }
  | respond {st : Server} {s : Nat} {packet : ServerPacket} (h : st.phase s = .responding packet)
      (hfree : st.Free s) (ok : Bool) :
      Step st (.respond s ok)
        ((st.write s packet).setPhase s (if ok then .reading else .waiting .disconnect))

theorem step_cases {st st' : Server} {a : Action} (h : st.step a = some st') : Step st a st' := by
  cases a with
  | accept s =>
      simp only [step] at h
      split at h
      · next hphase =>
          cases h
          exact .accept hphase
      · cases h
  | receive s request =>
      simp only [step] at h
      split at h
      · next hready =>
          split at h
          · next hc =>
              cases h
              exact .receive hready.1 hready.2 hc
          · next hc =>
              cases h
              exact .ignore hready.1 hready.2 hc
      · cases h
  | fail s =>
      simp only [step] at h
      split at h
      · next hready =>
          cases h
          exact .fail hready.1 hready.2
      · cases h
  | enter s =>
      simp only [step] at h
      split at h
      · next hphase hlock =>
          cases h
          exact .enter hphase hlock
      · cases h
  | send =>
      simp only [step] at h
      split at h
      · next hlock =>
          cases h
          exact .send hlock
      · cases h
  | release =>
      simp only [step] at h
      split at h
      · next hlock =>
          cases h
          exact .release hlock
      · cases h
  | respond s ok =>
      simp only [step] at h
      split at h
      · next hphase =>
          split at h
          · next hfree =>
              cases h
              exact .respond hphase hfree ok
          · cases h
      · cases h

/-- The steps `as`, if each of them can be taken. -/
def stepAll (st : Server) (as : List Action) : Option Server := as.foldlM step st

theorem stepAll_cons {st st' : Server} {a : Action} {as : List Action}
    (h : st.stepAll (a :: as) = some st') :
    ∃ mid, st.step a = some mid ∧ mid.stepAll as = some st' := by
  rw [stepAll, List.foldlM_cons] at h
  exact Option.bind_eq_some_iff.mp h

theorem Runs.append {as : List Action} : ∀ {bs : List Action} {st st' : Server}, Runs as st →
    st.stepAll bs = some st' → Runs (as ++ bs) st'
  | [], st, st', h, hbs => by
      rw [List.append_nil]
      exact Option.some.inj hbs ▸ h
  | b :: bs, st, st', h, hbs => by
      obtain ⟨mid, hstep, hrest⟩ := stepAll_cons hbs
      have hruns := (h.snoc b hstep).append hrest
      rwa [List.append_assoc] at hruns

end Server

end MemoryPack.ChatServer
