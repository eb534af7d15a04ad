import MemoryPack.Samples.ChatInvariant

/-!
# Interleavings of the chat server are sequential runs

The lock puts the handlers in an order. For every interleaving there is a list of events,
each client's in the order that it sent them, that the sequential chat answers with the same
packets: a session receives the broadcasts of the list that it is a recipient of, in the order
of the list, and its own responses. An event joins the list when its handler takes the lock,
or at once if the handler takes no lock.
-/

namespace MemoryPack.ChatServer

/-! ## Parts of a history -/

section Parts

variable {β : Type} (s : Nat)

theorem partOf_append (l l' : List (Nat × β)) :
    partOf s (l ++ l') = partOf s l ++ partOf s l' := by
  simp [partOf]

theorem partOf_self (b : β) : partOf s [(s, b)] = [b] := by
  simp [partOf]

theorem partOf_of_ne {t : Nat} (ht : t ≠ s) (b : β) : partOf s [(t, b)] = [] := by
  simp [partOf, ht]

theorem partOf_cons_self (b : β) (l : List (Nat × β)) :
    partOf s ((s, b) :: l) = b :: partOf s l := by
  simp [partOf]

theorem partOf_cons_of_ne {t : Nat} (ht : t ≠ s) (b : β) (l : List (Nat × β)) :
    partOf s ((t, b) :: l) = partOf s l := by
  simp [partOf, ht]

end Parts

/-- The events whose handling has begun, in the order of the steps. -/
def events (as : List Action) : List (Nat × Event) := as.filterMap Action.event

theorem events_snoc (as : List Action) (a : Action) :
    events (as ++ [a]) = events as ++ a.event.toList := by
  unfold events
  rw [List.filterMap_append]
  cases h : a.event <;> simp [h]

/-- What the lock holder has yet to send to session `m`. -/
def Server.pendingTo (st : Server) (m : Nat) : List ServerPacket :=
  match st.globalLock with
  | none => []
  | some l => partOf m l.pending

/-- The event that session `s` has begun with and that has not had the lock yet. -/
def Server.Outstanding (st : Server) (s : Nat) (rest : List Event) : Prop :=
  match st.phase s with
  | .waiting c => ∃ e : Event, rest = [e] ∧ e.toSection (st.shared.session s) = some c
  | _ => rest = []

/-- The server is where the sequential chat is behind the events of `log`, up to what the
threads have yet to send. -/
structure Server.Linearizes (as : List Action) (st : Server) (log : List (Nat × Event)) :
    Prop where
  shared : (Chat.run log).shared = st.shared
  order : ∀ s, ∃ rest, st.Outstanding s rest ∧ partOf s log ++ rest = partOf s (events as)
  broadcasts : ∀ m, (st.written m).filter (fun packet => !packet.isResponse) ++ st.pendingTo m =
    partOf m ((Chat.run log).sendings.flatMap Sending.calls)
  responses : ∀ s, (st.written s).filter (fun packet => packet.isResponse) ++
    (st.phase s).response.toList = partOf s (Chat.run log).responses

theorem Chat.run_snoc (log : List (Nat × Event)) (e : Nat × Event) :
    Chat.run (log ++ [e]) = (Chat.run log).serve e := by
  unfold Chat.run
  rw [List.foldl_append]
  rfl

namespace Server

variable {as : List Action} {st : Server} {log : List (Nat × Event)}

theorem pendingTo_locked {l : Lock} (h : st.globalLock = some l) (m : Nat) :
    st.pendingTo m = partOf m l.pending := by
  unfold pendingTo
  rw [h]

theorem Outstanding.of_phase {s : Nat} {rest : List Event} (h : st.Outstanding s rest)
    (hphase : ∀ c, st.phase s ≠ .waiting c) : rest = [] := by
  unfold Outstanding at h
  split at h
  · next c hc => exact absurd hc (hphase c)
  · exact h

theorem Outstanding.of_waiting {s : Nat} {rest : List Event} {c : Section}
    (h : st.Outstanding s rest) (hphase : st.phase s = .waiting c) :
    ∃ e : Event, rest = [e] ∧ e.toSection (st.shared.session s) = some c := by
  unfold Outstanding at h
  rw [hphase] at h
  exact h

/-- What is outstanding depends on the thread and its session only. -/
theorem Outstanding.congr {st' : Server} {s : Nat} {rest : List Event}
    (h : st.Outstanding s rest) (hphase : st'.phase s = st.phase s)
    (hsession : st'.shared.session s = st.shared.session s) : st'.Outstanding s rest := by
  unfold Outstanding at h ⊢
  rw [hphase, hsession]
  exact h

theorem outstanding_nil {s : Nat} (hphase : ∀ c, st.phase s ≠ .waiting c) :
    st.Outstanding s [] := by
  unfold Outstanding
  split
  · next c hc => exact absurd hc (hphase c)
  · rfl

theorem outstanding_setPhase {s : Nat} {c : Section} {e : Event}
    (he : e.toSection (st.shared.session s) = some c) :
    (st.setPhase s (.waiting c)).Outstanding s [e] := by
  unfold Outstanding
  rw [phase_setPhase_self]
  exact ⟨e, rfl, he⟩

/-- The order of events, where one thread begins with an event of its own. -/
theorem Linearizes.order_begin {a : Action} {s : Nat} {e : Event} {c : Section}
    (h : st.Linearizes as log) (hphase : ∀ c, st.phase s ≠ .waiting c)
    (ha : a.event = some (s, e)) (he : e.toSection (st.shared.session s) = some c) (t : Nat) :
    ∃ rest, (st.setPhase s (.waiting c)).Outstanding t rest ∧
      partOf t log ++ rest = partOf t (events (as ++ [a])) := by
  obtain ⟨rest, hrest, horder⟩ := h.order t
  rw [events_snoc, ha, Option.toList_some, partOf_append, ← horder]
  by_cases ht : t = s
  · subst ht
    rw [hrest.of_phase hphase, List.append_nil, partOf_self]
    exact ⟨[e], outstanding_setPhase he, rfl⟩
  · rw [partOf_of_ne t (Ne.symm ht), List.append_nil]
    exact ⟨rest, hrest.congr (phase_setPhase_of_ne st _ ht) rfl, rfl⟩

/-- The order of events, where no event begins. -/
theorem Linearizes.order_keep {a : Action} {st' : Server} (h : st.Linearizes as log)
    (ha : a.event = none) (hout : ∀ t rest, st.Outstanding t rest → st'.Outstanding t rest)
    (t : Nat) :
    ∃ rest, st'.Outstanding t rest ∧ partOf t log ++ rest = partOf t (events (as ++ [a])) := by
  obtain ⟨rest, hrest, horder⟩ := h.order t
  rw [events_snoc, ha, Option.toList_none, List.append_nil, ← horder]
  exact ⟨rest, hout t rest hrest, rfl⟩

/-- The responses, where a thread goes on that has none to send. -/
theorem Linearizes.responses_setPhase {s : Nat} {p : Phase} (h : st.Linearizes as log)
    (hbefore : (st.phase s).response = none) (hafter : p.response = none) (t : Nat) :
    (st.written t).filter (fun packet => packet.isResponse) ++
      ((st.setPhase s p).phase t).response.toList = partOf t (Chat.run log).responses := by
  rw [← h.responses t]
  by_cases ht : t = s
  · subst ht
    rw [phase_setPhase_self, hbefore, hafter]
  · rw [phase_setPhase_of_ne _ _ ht]

theorem linearizes_start : Linearizes [] {} [] where
  shared := rfl
  order := fun _ => ⟨[], rfl, rfl⟩
  broadcasts := fun _ => rfl
  responses := fun _ => rfl

theorem Linearizes.lockAndRun {s : Nat} {c : Section} (h : st.Linearizes as log)
    (hphase : st.phase s = .waiting c) (hlock : st.globalLock = none) :
    ∃ e, (st.lockAndRun s c).Linearizes (as ++ [.enter s]) (log ++ [(s, e)]) := by
  obtain ⟨rest, hrest, horder⟩ := h.order s
  obtain ⟨e, rfl, he⟩ := hrest.of_waiting hphase
  -- the sequential chat serves the event now
  have hserve : Chat.run (log ++ [(s, e)]) =
      { shared := (c.run st.shared s).1,
        sendings := (Chat.run log).sendings ++ (c.run st.shared s).2.1,
        responses := (Chat.run log).responses ++
          ((c.run st.shared s).2.2.response.map fun p => (s, p)).toList } := by
    rw [Chat.run_snoc, Chat.serve, h.shared, he]
  have hself : (st.lockAndRun s c).phase s = (c.run st.shared s).2.2 := phase_setPhase_self st s _
  have hother : ∀ {t}, t ≠ s → (st.lockAndRun s c).phase t = st.phase t :=
    fun ht => phase_setPhase_of_ne st _ ht
  refine ⟨e, ?_, ?_, ?_, ?_⟩
  · rw [hserve]
    rfl
  · intro t
    rw [events_snoc, show Action.event (.enter s) = none from rfl, Option.toList_none,
      List.append_nil]
    by_cases ht : t = s
    · subst ht
      refine ⟨[], outstanding_nil fun c' hc' => ?_, ?_⟩
      · rw [hself] at hc'
        rcases c.run_phase st.shared t with ⟨hclosed, -⟩ | hreading | ⟨packet, hpacket, -⟩
        · simp [hclosed] at hc'
        · simp [hreading] at hc'
        · simp [hpacket] at hc'
      · rw [partOf_append, partOf_self, List.append_nil, horder]
    · obtain ⟨rest', hrest', horder'⟩ := h.order t
      refine ⟨rest', hrest'.congr (hother ht) (c.run_of_ne _ ht), ?_⟩
      rw [partOf_append, partOf_of_ne t (Ne.symm ht), List.append_nil, horder']
  · intro m
    have hbefore := h.broadcasts m
    rw [pendingTo, hlock, List.append_nil] at hbefore
    rw [hserve, List.flatMap_append, partOf_append, ← hbefore]
    rfl
  · intro t
    have hbefore := h.responses t
    rw [hserve, partOf_append, ← hbefore]
    by_cases ht : t = s
    · subst ht
      rw [hself, hphase]
      show _ = _ ++ [] ++ _
      rw [List.append_nil]
      cases (c.run st.shared t).2.2.response with
      | none => rfl
      | some packet =>
          show _ = _ ++ partOf t [(t, packet)]
          rw [partOf_self]
          rfl
    · rw [hother ht]
      cases (c.run st.shared s).2.2.response with
      | none =>
          show _ = _ ++ []
          rw [List.append_nil]
          rfl
      | some packet =>
          show _ = _ ++ partOf t [(s, packet)]
          rw [partOf_of_ne t (Ne.symm ht), List.append_nil]
          rfl

theorem written_write (st : Server) (s t : Nat) (packet : ServerPacket) :
    (st.write s packet).written t =
      if t = s then st.written s ++ [packet] else st.written t := by
  unfold write
  by_cases ht : t = s
  · subst ht
    simp
  · simp [ht]

theorem Linearizes.send {owner m : Nat} {packet : ServerPacket}
    {pending : List (Nat × ServerPacket)} (h : st.Linearizes as log) (hsafe : st.Safe)
    (hlock : st.globalLock = some ⟨owner, (m, packet) :: pending⟩) :
    Linearizes (as ++ [.send]) { st.write m packet with globalLock := some ⟨owner, pending⟩ }
      log where
  shared := h.shared
  order := h.order_keep rfl fun t rest ht => ht.congr rfl rfl
  broadcasts := by
    intro t
    have hbefore := h.broadcasts t
    have hkind : packet.isResponse = false := hsafe.pending _ hlock _ List.mem_cons_self
    rw [pendingTo_locked hlock] at hbefore
    rw [← hbefore]
    show ((st.write m packet).written t).filter _ ++ partOf t pending = _
    rw [written_write]
    by_cases ht : t = m
    · subst ht
      rw [if_pos rfl, partOf_cons_self]
      simp [hkind]
    · rw [if_neg ht, partOf_cons_of_ne t (Ne.symm ht)]
  responses := by
    intro t
    have hkind : packet.isResponse = false := hsafe.pending _ hlock _ List.mem_cons_self
    rw [← h.responses t]
    show ((st.write m packet).written t).filter _ ++ _ = _
    rw [written_write]
    by_cases ht : t = m
    · subst ht
      rw [if_pos rfl, List.filter_append, List.filter_singleton, hkind, Bool.cond_false,
        List.append_nil]
      rfl
    · rw [if_neg ht]
      rfl

theorem Linearizes.respond {s : Nat} {packet : ServerPacket} (h : st.Linearizes as log)
    (hsafe : st.Safe) (hphase : st.phase s = .responding packet) (ok : Bool) :
    Linearizes (as ++ [.respond s ok])
      ((st.write s packet).setPhase s (if ok then .reading else .waiting .disconnect)) log where
  shared := h.shared
  order := by
    intro t
    have hidle : ∀ c, st.phase s ≠ .waiting c := by simp [hphase]
    cases ok with
    | true =>
        apply h.order_keep rfl
        intro u rest hu
        by_cases hus : u = s
        · subst hus
          rw [hu.of_phase hidle]
          apply outstanding_nil
          simp
        · exact hu.congr (phase_setPhase_of_ne _ _ hus) rfl
    | false =>
        obtain ⟨rest, hrest, horder⟩ := h.order_begin (a := .respond s false) hidle rfl
          (e := .disconnect) rfl t
        exact ⟨rest, hrest.congr rfl rfl, horder⟩
  broadcasts := by
    intro t
    have hkind : packet.isResponse = true := hsafe.responding s packet hphase
    rw [← h.broadcasts t]
    show ((st.write s packet).written t).filter _ ++ _ = _
    rw [written_write]
    by_cases ht : t = s
    · subst ht
      simp [hkind]
      rfl
    · rw [if_neg ht]
      rfl
  responses := by
    intro t
    have hkind : packet.isResponse = true := hsafe.responding s packet hphase
    rw [← h.responses t]
    show ((st.write s packet).written t).filter _ ++ _ = _
    rw [written_write]
    by_cases ht : t = s
    · subst ht
      rw [if_pos rfl, phase_setPhase_self, hphase]
      cases ok <;> simp [hkind, Phase.response]
    · rw [if_neg ht, phase_setPhase_of_ne _ _ ht]
      rfl

theorem Linearizes.step {st' : Server} {a : Action} (h : st.Linearizes as log) (hsafe : st.Safe)
    (hstep : Step st a st') : ∃ log', st'.Linearizes (as ++ [a]) log' := by
  cases hstep with
  | @accept s hphase =>
      refine ⟨log, h.shared, h.order_keep rfl ?_, h.broadcasts, h.responses_setPhase ?_ rfl⟩
      · intro t rest ht
        by_cases hts : t = s
        · subst hts
          rw [ht.of_phase (by simp [hphase])]
          exact outstanding_nil (by simp)
        · exact ht.congr (phase_setPhase_of_ne _ _ hts) rfl
      · rw [hphase]
        rfl
  | @receive s request c hphase _ hc =>
      refine ⟨log, h.shared, ?_, h.broadcasts, h.responses_setPhase ?_ rfl⟩
      · exact h.order_begin (by simp [hphase]) rfl (e := .request request) hc
      · rw [hphase]
        rfl
  | @ignore s request hphase _ hc =>
      -- an event that does not take the lock is served when it is received
      have hserve : Chat.run (log ++ [(s, .request request)]) = Chat.run log := by
        rw [Chat.run_snoc, Chat.serve, h.shared]
        simp only [Event.toSection, hc]
      refine ⟨log ++ [(s, .request request)], ?_, ?_, ?_, ?_⟩
      · rw [hserve]
        exact h.shared
      · intro t
        obtain ⟨rest, hrest, horder⟩ := h.order t
        rw [events_snoc, show Action.event (.receive s request) = some (s, .request request)
          from rfl, Option.toList_some, partOf_append, partOf_append, ← horder]
        by_cases ht : t = s
        · subst ht
          have hnil := hrest.of_phase (by simp [hphase])
          subst hnil
          exact ⟨[], hrest, by simp⟩
        · rw [partOf_of_ne t (Ne.symm ht)]
          exact ⟨rest, hrest, by simp⟩
      · rw [hserve]
        exact h.broadcasts
      · rw [hserve]
        exact h.responses
  | @fail s hphase =>
      refine ⟨log, h.shared, ?_, h.broadcasts, h.responses_setPhase ?_ rfl⟩
      · exact h.order_begin (by simp [hphase]) rfl (e := .disconnect) rfl
      · rw [hphase]
        rfl
  | @enter s c hphase hlock =>
      obtain ⟨e, he⟩ := h.lockAndRun hphase hlock
      exact ⟨_, he⟩
  | send hlock => exact ⟨log, h.send hsafe hlock⟩
  | release hlock =>
      refine ⟨log, h.shared, h.order_keep rfl fun t rest ht => ht.congr rfl rfl, ?_, h.responses⟩
      intro m
      have hbefore := h.broadcasts m
      rw [pendingTo_locked hlock] at hbefore
      exact hbefore
  | respond hphase _ ok => exact ⟨log, h.respond hsafe hphase ok⟩

theorem Runs.linearizes (h : Runs as st) : ∃ log, st.Linearizes as log := by
  induction h with
  | start => exact ⟨[], linearizes_start⟩
  | snoc hruns a hstep ih =>
      obtain ⟨log, hlog⟩ := ih
      exact hlog.step hruns.safe (step_cases hstep)

end Server

/-! ## The theorem -/

namespace Server

/-- No thread is between two steps of one handler. -/
def AtRest (st : Server) : Prop :=
  st.globalLock = none ∧ ∀ s, st.phase s = .absent ∨ st.phase s = .reading ∨ st.phase s = .closed

end Server

open Server

/-- Every interleaving of the threads does what the sequential chat does for the same events,
each client's in the order that it sent them: all members of a room receive its messages in
one order, nothing is lost and nothing is sent twice, and each login and each join has its
one answer. -/
theorem linearizable {as : List Action} {st : Server} (h : Runs as st) :
    ∃ log, st.Linearizes as log ∧ (st.AtRest → ∀ s,
      partOf s log = partOf s (events as) ∧
      (st.written s).filter (fun packet => !packet.isResponse) =
        partOf s ((Chat.run log).sendings.flatMap Sending.calls) ∧
      (st.written s).filter (fun packet => packet.isResponse) =
        partOf s (Chat.run log).responses) := by
  obtain ⟨log, hlog⟩ := h.linearizes
  refine ⟨log, hlog, ?_⟩
  rintro ⟨hlock, hrest⟩ s
  have hidle : (∀ c, st.phase s ≠ .waiting c) ∧ (st.phase s).response = none := by
    rcases hrest s with hphase | hphase | hphase <;> simp [hphase, Phase.response]
  obtain ⟨rest, hout, horder⟩ := hlog.order s
  rw [hout.of_phase hidle.1, List.append_nil] at horder
  have hbroadcasts := hlog.broadcasts s
  rw [pendingTo, hlock, List.append_nil] at hbroadcasts
  have hresponses := hlog.responses s
  rw [hidle.2, Option.toList_none, List.append_nil] at hresponses
  exact ⟨horder, hbroadcasts, hresponses⟩

theorem linearizable_twoUsers : ∃ st, Runs twoUsers st ∧ ∃ log, st.Linearizes twoUsers log := by
  obtain ⟨st, hst⟩ := Option.isSome_iff_exists.mp
    (show (Server.stepAll {} twoUsers).isSome = true by decide)
  have hruns : Runs twoUsers st := Runs.start.append hst
  obtain ⟨log, hlog, -⟩ := linearizable hruns
  exact ⟨st, hruns, log, hlog⟩

end MemoryPack.ChatServer
