import MemoryPack.Samples.ChatServer

/-!
# Names and rooms of the chat server

The invariant of all interleavings. The members of a room are the sessions whose
`CurrentRoom` it is; the user name of a session that is not closed is registered for it; and
what a handler has worked out in front of the lock is still right behind it, as no other
thread writes to its session (`Section.run_of_ne`).

The converse of the second is false: a session that logs in again leaves its first name
behind, and nobody removes it (`name_never_freed`).
-/

namespace MemoryPack.ChatServer

/-! ## The rooms -/

/-- The members of a room are the sessions that are in it, each of them once, and no room is
empty. -/
structure Shared.RoomsOk (g : Shared) : Prop where
  member : ∀ name s,
    (∃ room, g.rooms name = some room ∧ s ∈ room) ↔ (g.session s).currentRoom = some name
  nodup : ∀ name room, g.rooms name = some room → room.Nodup
  nonempty : ∀ name room, g.rooms name = some room → room ≠ []

namespace Shared

variable {g g' : Shared} {s : Nat}

/-- One room is replaced, and the sessions move in and out of this room only. -/
theorem RoomsOk.update (h : g.RoomsOk) (name : String) {v : Option (List Nat)}
    (hrooms : g'.rooms = Function.update g.rooms name v) (hempty : v ≠ some [])
    (hnodup : (v.getD []).Nodup)
    (hthis : ∀ t, t ∈ v.getD [] ↔ (g'.session t).currentRoom = some name)
    (hothers : ∀ t name', name' ≠ name → ((g'.session t).currentRoom = some name' ↔
      (g.session t).currentRoom = some name')) : g'.RoomsOk := by
  have hroom : ∀ {name' room}, g'.rooms name' = some room →
      (name' = name ∧ v = some room) ∨ (name' ≠ name ∧ g.rooms name' = some room) := by
    intro name' room h'
    rw [hrooms] at h'
    by_cases hname : name' = name
    · subst hname
      rw [Function.update_self] at h'
      exact Or.inl ⟨rfl, h'⟩
    · rw [Function.update_of_ne hname] at h'
      exact Or.inr ⟨hname, h'⟩
  refine ⟨?_, ?_, ?_⟩
  · intro name' t
    by_cases hname : name' = name
    · subst hname
      rw [← hthis, hrooms, Function.update_self]
      cases v <;> simp
    · rw [hothers t name' hname, ← h.member, hrooms, Function.update_of_ne hname]
  · intro name' room h'
    rcases hroom h' with ⟨-, rfl⟩ | ⟨-, h'⟩
    · exact hnodup
    · exact h.nodup name' room h'
  · intro name' room h'
    rcases hroom h' with ⟨-, rfl⟩ | ⟨-, h'⟩
    · exact fun hnil => hempty (by rw [hnil])
    · exact h.nonempty name' room h'

theorem session_setCurrentRoom (r : Option String) (t : Nat) :
    ((g.setCurrentRoom s r).session t).currentRoom =
      if t = s then r else (g.session t).currentRoom := by
  unfold setCurrentRoom
  by_cases ht : t = s
  · subst ht
    simp
  · simp [ht]

theorem username_setCurrentRoom (r : Option String) (t : Nat) :
    ((g.setCurrentRoom s r).session t).username = (g.session t).username := by
  unfold setCurrentRoom
  by_cases ht : t = s
  · subst ht
    simp
  · simp [ht]

theorem currentRoom_setUsername (username : String) (t : Nat) :
    ((g.setUsername s username).session t).currentRoom = (g.session t).currentRoom := by
  unfold setUsername
  by_cases ht : t = s
  · subst ht
    simp
  · simp [ht]

theorem setCurrentRoom_of_ne (r : Option String) {t : Nat} (ht : t ≠ s) :
    (g.setCurrentRoom s r).session t = g.session t := by
  simp [setCurrentRoom, ht]

/-- Leaving is `CurrentRoom = null`, apart from the rooms. -/
theorem leaveCurrentRoom_session (g : Shared) (s : Nat) :
    (g.leaveCurrentRoom s).1.session = (g.setCurrentRoom s none).session := by
  unfold leaveCurrentRoom
  split
  · next hnone =>
      funext t
      by_cases ht : t = s
      · subst ht
        simp [setCurrentRoom, ← hnone]
      · rw [setCurrentRoom_of_ne _ ht]
  · split
    · rfl
    · rfl

theorem leaveCurrentRoom_users (g : Shared) (s : Nat) :
    (g.leaveCurrentRoom s).1.loggedInUsers = g.loggedInUsers := by
  unfold leaveCurrentRoom
  split
  · rfl
  · split <;> rfl

theorem RoomsOk.leaveCurrentRoom (h : g.RoomsOk) (s : Nat) : (g.leaveCurrentRoom s).1.RoomsOk := by
  cases hcurrent : (g.session s).currentRoom with
  | none => simpa only [Shared.leaveCurrentRoom, hcurrent] using h
  | some name =>
      obtain ⟨room, hroom, -⟩ := (h.member name s).mpr hcurrent
      have hnodup := h.nodup name room hroom
      simp only [Shared.leaveCurrentRoom, hcurrent, hroom]
      apply h.update name rfl
      · split
        · simp
        · next hne => simpa using hne
      · split
        · exact List.nodup_nil
        · exact hnodup.erase s
      · intro t
        have hmem : t ∈ (if (room.erase s).isEmpty = true then none
            else some (room.erase s)).getD [] ↔ t ∈ room.erase s := by
          split
          · next he => simp [List.isEmpty_iff.mp he]
          · rfl
        show _ ↔ ((g.setCurrentRoom s none).session t).currentRoom = some name
        rw [hmem, hnodup.mem_erase_iff, session_setCurrentRoom]
        by_cases ht : t = s
        · simp [ht]
        · have hexists : (∃ room', g.rooms name = some room' ∧ t ∈ room') ↔ t ∈ room := by
            simp [hroom]
          rw [if_neg ht, ← h.member name t, hexists]
          simp [ht]
      · intro t name' hname
        show ((g.setCurrentRoom s none).session t).currentRoom = some name' ↔ _
        rw [session_setCurrentRoom]
        by_cases ht : t = s
        · subst ht
          simp [hcurrent, Ne.symm hname]
        · rw [if_neg ht]

theorem RoomsOk.enterRoom (h : g.RoomsOk) (hnone : (g.session s).currentRoom = none)
    (name : String) : (g.enterRoom s name).1.RoomsOk := by
  have hout : s ∉ (g.rooms name).getD [] := by
    intro hmem
    cases hroom : g.rooms name with
    | none => simp [hroom] at hmem
    | some room =>
        rw [hroom] at hmem
        have hcurrent := (h.member name s).mp ⟨room, hroom, hmem⟩
        rw [hnone] at hcurrent
        cases hcurrent
  apply h.update name rfl
  · simp [hout]
  · rw [Option.getD_some, if_neg hout]
    apply List.Nodup.append
    · cases hroom : g.rooms name with
      | none => exact List.nodup_nil
      | some room => exact h.nodup name room hroom
    · exact List.nodup_singleton s
    · simpa using hout
  · intro t
    show t ∈ _ ↔ ((g.setCurrentRoom s (some name)).session t).currentRoom = some name
    rw [Option.getD_some, if_neg hout, session_setCurrentRoom, List.mem_append, List.mem_singleton]
    by_cases ht : t = s
    · simp [ht]
    · rw [if_neg ht, ← h.member name t]
      cases hroom : g.rooms name <;> simp [ht]
  · intro t name' hname
    show ((g.setCurrentRoom s (some name)).session t).currentRoom = some name' ↔ _
    rw [session_setCurrentRoom]
    by_cases ht : t = s
    · subst ht
      simp [hnone, Ne.symm hname]
    · rw [if_neg ht]

end Shared

/-! ## The names -/

/-- The user name of a live session is registered for it. -/
def Shared.NamesOk (g : Shared) (live : Nat → Prop) : Prop :=
  ∀ s username, live s → (g.session s).username = some username →
    g.loggedInUsers username = some s

namespace Shared

variable {g : Shared} {s : Nat} {live : Nat → Prop}

/-- Names are not affected by a change of rooms. -/
theorem NamesOk.congr {g' : Shared} (h : g.NamesOk live)
    (husers : g'.loggedInUsers = g.loggedInUsers)
    (hnames : ∀ t, (g'.session t).username = (g.session t).username) : g'.NamesOk live := by
  intro t username hlive hname
  rw [hnames] at hname
  rw [husers]
  exact h t username hlive hname

theorem NamesOk.handleLogin (h : g.NamesOk live) (s : Nat) (username : String) :
    (g.handleLogin s username).1.NamesOk live := by
  unfold Shared.handleLogin
  split
  · exact h
  · split
    · exact h
    · next hfree =>
        intro t other hlive hname
        show Function.update g.loggedInUsers username (some s) other = some t
        replace hname : ((g.setUsername s username).session t).username = some other := hname
        unfold setUsername at hname
        by_cases ht : t = s
        · subst ht
          simp only [Function.update_self] at hname
          rw [← Option.some.inj hname, Function.update_self]
        · simp only [Function.update_of_ne ht] at hname
          have hother := h t other hlive hname
          -- the name was free, so it is not the name of another session
          have hne : other ≠ username := by
            rintro rfl
            rw [hother] at hfree
            exact hfree rfl
          rwa [Function.update_of_ne hne]

theorem NamesOk.handleDisconnect (h : g.NamesOk live) (hs : live s) :
    (g.handleDisconnect s).1.NamesOk fun t => live t ∧ t ≠ s := by
  unfold Shared.handleDisconnect
  cases hname : (g.session s).username with
  | none =>
      refine NamesOk.congr (g := g) (fun t username ht => h t username ht.1) ?_ ?_
      · exact leaveCurrentRoom_users g s
      · intro t
        rw [leaveCurrentRoom_session, username_setCurrentRoom]
  | some username =>
      refine NamesOk.congr (g := { g with
        loggedInUsers := Function.update g.loggedInUsers username none }) ?_ ?_ ?_
      · rintro t other ⟨hlive, ht⟩ hother
        show Function.update g.loggedInUsers username none other = some t
        have hregistered := h t other hlive hother
        have hne : other ≠ username := by
          rintro rfl
          have hmine := h s other hs hname
          exact ht (Option.some.inj (hregistered.symm.trans hmine))
        rwa [Function.update_of_ne hne]
      · exact leaveCurrentRoom_users _ s
      · intro t
        rw [leaveCurrentRoom_session, username_setCurrentRoom]

end Shared

/-! ## Sections -/

namespace Section

variable {g : Shared} {s : Nat}

/-- A handler touches its own session only. -/
theorem run_of_ne (c : Section) (g : Shared) {t : Nat} (ht : t ≠ s) :
    (c.run g s).1.session t = g.session t := by
  cases c with
  | login username =>
      show (g.handleLogin s username).1.session t = g.session t
      unfold Shared.handleLogin
      split
      · rfl
      · split
        · rfl
        · exact Function.update_of_ne ht _ _
  | roomJoin roomName =>
      show ((g.leaveCurrentRoom s).1.setCurrentRoom s _).session t = _
      rw [Shared.setCurrentRoom_of_ne _ ht, Shared.leaveCurrentRoom_session,
        Shared.setCurrentRoom_of_ne _ ht]
  | roomChat senderName message => rfl
  | privateChat senderName targetName message => rfl
  | disconnect =>
      show (g.handleDisconnect s).1.session t = _
      unfold Shared.handleDisconnect
      rw [Shared.leaveCurrentRoom_session, Shared.setCurrentRoom_of_ne _ ht]
      split <;> rfl

theorem run_roomsOk (c : Section) (h : g.RoomsOk) (s : Nat) : (c.run g s).1.RoomsOk := by
  cases c with
  | login username =>
      show (g.handleLogin s username).1.RoomsOk
      unfold Shared.handleLogin
      split
      · exact h
      · split
        · exact h
        · -- the name changes, the room does not
          refine ⟨fun name t => ?_, h.nodup, h.nonempty⟩
          show (∃ room, g.rooms name = some room ∧ t ∈ room) ↔
            ((g.setUsername s username).session t).currentRoom = some name
          rw [h.member, Shared.currentRoom_setUsername]
  | roomJoin roomName =>
      apply (h.leaveCurrentRoom s).enterRoom
      rw [Shared.leaveCurrentRoom_session, Shared.session_setCurrentRoom, if_pos rfl]
  | roomChat senderName message => exact h
  | privateChat senderName targetName message => exact h
  | disconnect =>
      show (g.handleDisconnect s).1.RoomsOk
      unfold Shared.handleDisconnect
      apply Shared.RoomsOk.leaveCurrentRoom
      split
      · exact h
      · exact ⟨h.member, h.nodup, h.nonempty⟩

theorem run_namesOk (c : Section) {live : Nat → Prop} (h : g.NamesOk live) (hs : live s) :
    (c.run g s).1.NamesOk fun t => live t ∧ (t = s → c ≠ .disconnect) := by
  have hweaken : ∀ {g' : Shared}, g'.NamesOk live →
      g'.NamesOk fun t => live t ∧ (t = s → c ≠ .disconnect) :=
    fun h' t username ht => h' t username ht.1
  cases c with
  | login username => exact hweaken (h.handleLogin s username)
  | roomJoin roomName =>
      apply hweaken
      apply h.congr
      · exact Shared.leaveCurrentRoom_users g s
      · intro t
        show (((g.leaveCurrentRoom s).1.setCurrentRoom s _).session t).username = _
        rw [Shared.username_setCurrentRoom, Shared.leaveCurrentRoom_session,
          Shared.username_setCurrentRoom]
  | roomChat senderName message => exact hweaken h
  | privateChat senderName targetName message => exact hweaken h
  | disconnect =>
      intro t username ht
      exact h.handleDisconnect hs t username ⟨ht.1, fun heq => ht.2 heq rfl⟩

/-- How a section ends. -/
theorem run_phase (c : Section) (g : Shared) (s : Nat) :
    (c.run g s).2.2 = .closed ∧ c = .disconnect ∨ (c.run g s).2.2 = .reading ∨
      ∃ packet, (c.run g s).2.2 = .responding packet ∧ packet.isResponse = true := by
  cases c with
  | login username =>
      refine Or.inr (Or.inr ⟨_, rfl, ?_⟩)
      unfold Shared.handleLogin
      split
      · rfl
      · split <;> rfl
  | roomJoin roomName => exact Or.inr (Or.inr ⟨_, rfl, rfl⟩)
  | roomChat senderName message => exact Or.inr (Or.inl rfl)
  | privateChat senderName targetName message => exact Or.inr (Or.inl rfl)
  | disconnect => exact Or.inl ⟨rfl, rfl⟩

theorem leaveCurrentRoom_packets (g : Shared) (s : Nat) :
    ∀ x ∈ (g.leaveCurrentRoom s).2, x.packet.isResponse = false := by
  unfold Shared.leaveCurrentRoom
  split
  · simp
  · split
    · simp
    · simp [ServerPacket.isResponse]

/-- No response is sent under the lock. -/
theorem run_packets (c : Section) (g : Shared) (s : Nat) :
    ∀ x ∈ (c.run g s).2.1, x.packet.isResponse = false := by
  cases c with
  | login username => simp [run]
  | roomJoin roomName =>
      intro x hx
      rcases List.mem_append.mp hx with hx | hx
      · exact leaveCurrentRoom_packets g s x hx
      · rw [List.mem_singleton.mp hx]
        rfl
  | roomChat senderName message =>
      show ∀ x ∈ g.handleRoomChat s senderName message, _
      unfold Shared.handleRoomChat
      split <;> simp [ServerPacket.isResponse]
  | privateChat senderName targetName message =>
      show ∀ x ∈ g.handlePrivateChat s senderName targetName message, _
      unfold Shared.handlePrivateChat
      simp [ServerPacket.isResponse]
  | disconnect => exact leaveCurrentRoom_packets _ s

end Section

/-! ## Every reachable state -/

namespace Server

/-- What holds between any two steps. -/
structure Safe (st : Server) : Prop where
  rooms : st.shared.RoomsOk
  names : st.shared.NamesOk fun s => st.phase s ≠ .closed
  gone : ∀ s, st.phase s = .closed ∨ st.phase s = .absent →
    (st.shared.session s).currentRoom = none
  captured : ∀ s c, st.phase s = .waiting c →
    ∃ e : Event, e.toSection (st.shared.session s) = some c
  responding : ∀ s packet, st.phase s = .responding packet → packet.isResponse = true
  pending : ∀ l, st.globalLock = some l → ∀ x ∈ l.pending, x.2.isResponse = false

theorem safe_start : Safe {} where
  rooms := ⟨by simp, by simp, by simp⟩
  names := by simp [Shared.NamesOk]
  gone := by simp
  captured := by simp
  responding := by simp
  pending := by simp

@[simp] theorem phase_setPhase_self (st : Server) (s : Nat) (p : Phase) :
    (st.setPhase s p).phase s = p := by
  simp [setPhase]

theorem phase_setPhase_of_ne (st : Server) {s t : Nat} (p : Phase) (ht : t ≠ s) :
    (st.setPhase s p).phase t = st.phase t := by
  simp [setPhase, ht]

/-- A thread that goes on does not disturb what the lock protects. -/
theorem Safe.setPhase {st : Server} (h : st.Safe) {s : Nat} {p : Phase}
    (hlive : st.phase s ≠ .closed) (hgone : p ≠ .closed ∧ p ≠ .absent)
    (hcaptured : ∀ c, p = .waiting c →
      ∃ e : Event, e.toSection (st.shared.session s) = some c)
    (hresponding : ∀ packet, p ≠ .responding packet) : (st.setPhase s p).Safe where
  rooms := h.rooms
  names := by
    intro t username ht hname
    apply h.names t username _ hname
    by_cases hts : t = s
    · exact hts ▸ hlive
    · rwa [phase_setPhase_of_ne _ _ hts] at ht
  gone := by
    intro t ht
    by_cases hts : t = s
    · subst hts
      rw [phase_setPhase_self] at ht
      exact absurd ht (not_or.mpr hgone)
    · rw [phase_setPhase_of_ne _ _ hts] at ht
      exact h.gone t ht
  captured := by
    intro t c ht
    by_cases hts : t = s
    · subst hts
      rw [phase_setPhase_self] at ht
      exact hcaptured c ht
    · rw [phase_setPhase_of_ne _ _ hts] at ht
      exact h.captured t c ht
  responding := by
    intro t packet ht
    by_cases hts : t = s
    · subst hts
      rw [phase_setPhase_self] at ht
      exact absurd ht (hresponding packet)
    · rw [phase_setPhase_of_ne _ _ hts] at ht
      exact h.responding t packet ht
  pending := h.pending

theorem Safe.lockAndRun {st : Server} (h : st.Safe) {s : Nat} {c : Section}
    (hphase : st.phase s = .waiting c) : (st.lockAndRun s c).Safe where
  rooms := c.run_roomsOk h.rooms s
  names := by
    have hlive : st.phase s ≠ .closed := by simp [hphase]
    have hrun := c.run_namesOk h.names hlive
    intro t username ht hname
    apply hrun t username _ hname
    by_cases hts : t = s
    · subst hts
      refine ⟨hlive, ?_⟩
      rintro - rfl
      exact ht (phase_setPhase_self st t _)
    · rw [show (st.lockAndRun s c).phase t = st.phase t from phase_setPhase_of_ne st _ hts] at ht
      exact ⟨ht, fun heq => absurd heq hts⟩
  gone := by
    intro t ht
    by_cases hts : t = s
    · subst hts
      rw [show (st.lockAndRun t c).phase t = _ from phase_setPhase_self st t _] at ht
      rcases c.run_phase st.shared t with ⟨-, rfl⟩ | hreading | ⟨packet, hpacket, -⟩
      · show ((st.shared.handleDisconnect t).1.session t).currentRoom = none
        unfold Shared.handleDisconnect
        rw [Shared.leaveCurrentRoom_session, Shared.session_setCurrentRoom, if_pos rfl]
      · simp [hreading] at ht
      · simp [hpacket] at ht
    · rw [show (st.lockAndRun s c).phase t = st.phase t from phase_setPhase_of_ne st _ hts] at ht
      show ((c.run st.shared s).1.session t).currentRoom = none
      rw [c.run_of_ne _ hts]
      exact h.gone t ht
  captured := by
    intro t c' ht
    by_cases hts : t = s
    · subst hts
      rw [show (st.lockAndRun t c).phase t = _ from phase_setPhase_self st t _] at ht
      rcases c.run_phase st.shared t with ⟨hclosed, -⟩ | hreading | ⟨packet, hpacket, -⟩
      · simp [hclosed] at ht
      · simp [hreading] at ht
      · simp [hpacket] at ht
    · rw [show (st.lockAndRun s c).phase t = st.phase t from phase_setPhase_of_ne st _ hts] at ht
      show ∃ e : Event, e.toSection ((c.run st.shared s).1.session t) = some c'
      rw [c.run_of_ne _ hts]
      exact h.captured t c' ht
  responding := by
    intro t packet ht
    by_cases hts : t = s
    · subst hts
      rw [show (st.lockAndRun t c).phase t = _ from phase_setPhase_self st t _] at ht
      rcases c.run_phase st.shared t with ⟨hclosed, -⟩ | hreading | ⟨packet', hpacket, hresponse⟩
      · simp [hclosed] at ht
      · simp [hreading] at ht
      · rw [hpacket] at ht
        exact Phase.responding.inj ht ▸ hresponse
    · rw [show (st.lockAndRun s c).phase t = st.phase t from phase_setPhase_of_ne st _ hts] at ht
      exact h.responding t packet ht
  pending := by
    intro l hl x hx
    obtain rfl := Option.some.inj hl
    obtain ⟨y, hy, hxy⟩ := List.mem_flatMap.mp hx
    obtain ⟨m, -, rfl⟩ := List.mem_map.mp hxy
    exact c.run_packets st.shared s y hy

theorem Safe.write {st : Server} (h : st.Safe) (s : Nat) (packet : ServerPacket) :
    (st.write s packet).Safe :=
  ⟨h.rooms, h.names, h.gone, h.captured, h.responding, h.pending⟩

theorem Safe.step {st st' : Server} {a : Action} (h : st.Safe) (hstep : Step st a st') :
    st'.Safe := by
  cases hstep with
  | accept hphase => exact h.setPhase (by simp [hphase]) (by simp) (by simp) (by simp)
  | @receive s request c hphase _ hc =>
      apply h.setPhase (by simp [hphase]) (by simp) _ (by simp)
      intro c' hc'
      exact ⟨.request request, hc.trans (congrArg some (Phase.waiting.inj hc'))⟩
  | ignore => exact h
  | fail hphase =>
      apply h.setPhase (by simp [hphase]) (by simp) _ (by simp)
      intro c hc
      exact ⟨.disconnect, congrArg some (Phase.waiting.inj hc)⟩
  | enter hphase => exact h.lockAndRun hphase
  | send hlock =>
      refine ⟨h.rooms, h.names, h.gone, h.captured, h.responding, ?_⟩
      intro l hl x hx
      obtain rfl := Option.some.inj hl
      exact h.pending _ hlock x (List.mem_cons_of_mem _ hx)
  | release => exact ⟨h.rooms, h.names, h.gone, h.captured, h.responding, by simp⟩
  | @respond s packet hphase _ ok =>
      apply (h.write s packet).setPhase
      · show st.phase s ≠ .closed
        simp [hphase]
      · cases ok <;> simp
      · cases ok with
        | true => simp
        | false =>
            intro c hc
            exact ⟨.disconnect, congrArg some (Phase.waiting.inj hc)⟩
      · cases ok <;> simp

theorem Runs.safe {as : List Action} {st : Server} (h : Runs as st) : st.Safe := by
  induction h with
  | start => exact safe_start
  | snoc _ a hstep ih => exact ih.step (step_cases hstep)

end Server

/-! ## The theorems -/

open Server

/-- Whatever the interleaving, a name belongs to one live session, a room holds exactly the
sessions that are in it, and a chat message carries the name of its sender to the room of
its sender. -/
theorem names_and_rooms {as : List Action} {st : Server} (h : Runs as st) :
    (∀ s t username, st.phase s ≠ .closed → st.phase t ≠ .closed →
      (st.shared.session s).username = some username →
      (st.shared.session t).username = some username → s = t) ∧
    (∀ name room, st.shared.rooms name = some room → room ≠ [] ∧ room.Nodup ∧
      ∀ s, s ∈ room ↔ (st.shared.session s).currentRoom = some name) ∧
    (∀ s name, (st.shared.session s).currentRoom = some name →
      st.phase s ≠ .closed ∧ st.phase s ≠ .absent ∧ (st.shared.rooms name).isSome = true) ∧
    (∀ s senderName message, st.phase s = .waiting (.roomChat senderName message) →
      senderName = (st.shared.session s).name ∧
        ∃ room, st.shared.handleRoomChat s senderName message =
            [⟨.roomChat senderName message, room⟩] ∧ s ∈ room ∧ room.Nodup ∧
          ∀ t, t ∈ room ↔
            (st.shared.session t).currentRoom = (st.shared.session s).currentRoom) ∧
    (∀ s senderName targetName message,
      st.phase s = .waiting (.privateChat senderName targetName message) →
        senderName = (st.shared.session s).name) := by
  have hsafe := h.safe
  have hmember : ∀ {name room}, st.shared.rooms name = some room → ∀ s, s ∈ room ↔
      (st.shared.session s).currentRoom = some name := by
    intro name room hroom s
    rw [← hsafe.rooms.member name s]
    simp [hroom]
  refine ⟨?_, ?_, ?_, ?_, ?_⟩
  · intro s t username hs ht hsname htname
    have hmine := hsafe.names s username hs hsname
    exact Option.some.inj (hmine.symm.trans (hsafe.names t username ht htname))
  · intro name room hroom
    exact ⟨hsafe.rooms.nonempty name room hroom, hsafe.rooms.nodup name room hroom,
      hmember hroom⟩
  · intro s name hname
    have hlive : ¬ (st.phase s = .closed ∨ st.phase s = .absent) := by
      intro hgone
      rw [hsafe.gone s hgone] at hname
      cases hname
    obtain ⟨room, hroom, -⟩ := (hsafe.rooms.member name s).mpr hname
    exact ⟨fun hc => hlive (Or.inl hc), fun ha => hlive (Or.inr ha), by simp [hroom]⟩
  · intro s senderName message hphase
    obtain ⟨e, he⟩ := hsafe.captured s _ hphase
    -- only a session in a room gets this far
    obtain ⟨hin, hname⟩ : (st.shared.session s).currentRoom ≠ none ∧
        senderName = (st.shared.session s).name := by
      cases e with
      | disconnect => cases he
      | request r =>
          cases r with
          | roomChat text =>
              simp only [Event.toSection, Request.toSection] at he
              split at he
              · cases he
              · next hin =>
                  obtain ⟨rfl, -⟩ := Section.roomChat.inj (Option.some.inj he)
                  exact ⟨hin, rfl⟩
          | _ => cases he
    obtain ⟨name, hcurrent⟩ := Option.ne_none_iff_exists'.mp hin
    obtain ⟨room, hroom, hs⟩ := (hsafe.rooms.member name s).mpr hcurrent
    refine ⟨hname, room, ?_, hs, hsafe.rooms.nodup name room hroom, ?_⟩
    · simp [Shared.handleRoomChat, hcurrent, hroom]
    · intro t
      rw [hcurrent]
      exact hmember hroom t
  · intro s senderName targetName message hphase
    obtain ⟨e, he⟩ := hsafe.captured s _ hphase
    cases e with
    | disconnect => cases he
    | request r =>
        cases r with
        | privateChat target text =>
            exact (Section.privateChat.inj (Option.some.inj he)).1.symm
        | roomChat text =>
            simp only [Event.toSection, Request.toSection] at he
            split at he <;> cases he
        | _ => cases he

/-- Two users in a room, the first of them about to chat. -/
def twoUsers : List Action :=
  [.accept 0, .accept 1, .receive 0 (.loginRequest (some "ann")),
    .receive 1 (.loginRequest (some "bob")), .enter 1, .release, .enter 0, .release,
    .respond 0 true, .receive 0 (.roomJoinRequest none), .respond 1 true, .enter 0, .release,
    .receive 1 (.roomJoinRequest none), .enter 1, .send, .respond 0 true, .release,
    .receive 0 (.roomChat (some "hello"))]

theorem names_and_rooms_twoUsers : ∃ st, Runs twoUsers st ∧
    st.shared.rooms "default" = some [0, 1] ∧
    ∀ room, st.shared.rooms "default" = some room → room ≠ [] ∧ room.Nodup ∧
      ∀ s, s ∈ room ↔ (st.shared.session s).currentRoom = some "default" := by
  obtain ⟨st, hst⟩ := Option.isSome_iff_exists.mp
    (show (Server.stepAll {} twoUsers).isSome = true by decide)
  have hroom : ((Server.stepAll {} twoUsers).bind fun st => st.shared.rooms "default") =
      some [0, 1] := by decide
  rw [hst] at hroom
  have hruns : Runs twoUsers st := Runs.start.append hst
  exact ⟨st, hruns, hroom, fun room => (names_and_rooms hruns).2.1 "default" room⟩

/-! ## Names that are never freed -/

/-- The name is registered for a session that goes by another one. -/
def Shared.Abandoned (g : Shared) (username : String) (s : Nat) : Prop :=
  g.loggedInUsers username = some s ∧ (g.session s).username ≠ some username

namespace Shared

variable {g : Shared} {username : String} {s : Nat}

theorem handleLogin_of_registered (h : (g.loggedInUsers username).isSome = true) (t : Nat) :
    (g.handleLogin t username).1 = g ∧
      (g.handleLogin t username).2 ≠ .loginResponse true "OK" := by
  unfold handleLogin
  rw [if_pos h]
  split <;> exact ⟨rfl, by simp⟩

theorem Abandoned.run (h : g.Abandoned username s) {live : Nat → Prop} (hnames : g.NamesOk live)
    (c : Section) {t : Nat} (ht : live t) : (c.run g t).1.Abandoned username s := by
  obtain ⟨hregistered, hother⟩ := h
  cases c with
  | login name =>
      by_cases hname : name = username
      · subst hname
        rw [show (Section.run g t (.login name)).1 = g from
          (handleLogin_of_registered (by simp [hregistered]) t).1]
        exact ⟨hregistered, hother⟩
      · show (g.handleLogin t name).1.Abandoned username s
        unfold Shared.handleLogin
        split
        · exact ⟨hregistered, hother⟩
        · split
          · exact ⟨hregistered, hother⟩
          · refine ⟨?_, ?_⟩
            · show Function.update g.loggedInUsers name (some t) username = some s
              rwa [Function.update_of_ne (Ne.symm hname)]
            · show ((g.setUsername t name).session s).username ≠ some username
              unfold setUsername
              by_cases hst : s = t
              · subst hst
                simp [hname]
              · simp [hst, hother]
  | roomJoin roomName =>
      refine ⟨?_, ?_⟩
      · show (g.leaveCurrentRoom t).1.loggedInUsers username = some s
        rw [leaveCurrentRoom_users]
        exact hregistered
      · show (((g.leaveCurrentRoom t).1.setCurrentRoom t _).session s).username ≠ _
        rw [username_setCurrentRoom, leaveCurrentRoom_session, username_setCurrentRoom]
        exact hother
  | roomChat senderName message => exact ⟨hregistered, hother⟩
  | privateChat senderName targetName message => exact ⟨hregistered, hother⟩
  | disconnect =>
      refine ⟨?_, ?_⟩
      · show (g.handleDisconnect t).1.loggedInUsers username = some s
        unfold Shared.handleDisconnect
        rw [leaveCurrentRoom_users]
        split
        · exact hregistered
        · next name hname =>
            -- the session that leaves is registered under the name it goes by
            have hmine := hnames t name ht hname
            have hne : username ≠ name := by
              rintro rfl
              rw [hregistered] at hmine
              obtain rfl := Option.some.inj hmine
              exact hother hname
            show Function.update g.loggedInUsers name none username = some s
            rwa [Function.update_of_ne hne]
      · show ((g.handleDisconnect t).1.session s).username ≠ _
        unfold Shared.handleDisconnect
        rw [leaveCurrentRoom_session, username_setCurrentRoom]
        split
        · exact hother
        · exact hother

end Shared

theorem Server.Step.abandoned {st st' : Server} {a : Action} {username : String} {s : Nat}
    (hstep : Step st a st') (hsafe : st.Safe) (h : st.shared.Abandoned username s) :
    st'.shared.Abandoned username s := by
  cases hstep with
  | enter hphase => exact h.run hsafe.names _ (by simp [hphase])
  | _ => exact h

/-- A name whose session has logged in again under another one stays taken for ever, also
behind the end of that session. -/
theorem name_never_freed {as : List Action} {st : Server} (h : Runs as st) {username : String}
    {s : Nat} (habandoned : st.shared.Abandoned username s) (bs : List Action) :
    ∀ st', st.stepAll bs = some st' → st'.shared.loggedInUsers username = some s ∧
      ∀ t, (st'.shared.handleLogin t username).2 ≠ .loginResponse true "OK" := by
  induction bs generalizing as st with
  | nil =>
      intro st' hst'
      obtain rfl := Option.some.inj hst'
      refine ⟨habandoned.1, fun t => ?_⟩
      exact (Shared.handleLogin_of_registered (by simp [habandoned.1]) t).2
  | cons b bs ih =>
      intro st' hst'
      obtain ⟨mid, hstep, hrest⟩ := stepAll_cons hst'
      exact ih (h.snoc b hstep) ((step_cases hstep).abandoned h.safe habandoned) st' hrest

/-- A user logs in twice, and leaves. -/
def twoLogins : List Action :=
  [.accept 0, .receive 0 (.loginRequest (some "ann")), .enter 0, .release, .respond 0 true,
    .receive 0 (.loginRequest (some "bea")), .enter 0, .release, .respond 0 true]

theorem name_never_freed_twoLogins : ∃ st st', Runs twoLogins st ∧
    st.stepAll [.fail 0, .enter 0, .release] = some st' ∧ st'.phase 0 = .closed ∧
    st'.shared.loggedInUsers "ann" = some 0 := by
  obtain ⟨st, hst⟩ := Option.isSome_iff_exists.mp
    (show (Server.stepAll {} twoLogins).isSome = true by decide)
  have habandoned : ((Server.stepAll {} twoLogins).map fun st =>
      (st.shared.loggedInUsers "ann", (st.shared.session 0).username)) =
      some (some 0, some "bea") := by decide
  have hleaves : (((Server.stepAll {} twoLogins).bind fun st =>
      st.stepAll [.fail 0, .enter 0, .release]).map fun st => st.phase 0) = some .closed := by
    decide
  rw [hst] at habandoned hleaves
  obtain ⟨hregistered, hname⟩ := Prod.mk.inj (Option.some.inj habandoned)
  obtain ⟨st', hst', hclosed⟩ := Option.map_eq_some_iff.mp hleaves
  have hruns : Runs twoLogins st := Runs.start.append hst
  have hlost : st.shared.Abandoned "ann" 0 := ⟨hregistered, by rw [hname]; decide⟩
  exact ⟨st, st', hruns, hst', hclosed, (name_never_freed hruns hlost _ st' hst').1⟩

end MemoryPack.ChatServer
