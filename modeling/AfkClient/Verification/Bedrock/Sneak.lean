import AfkClient.Model.BedrockSender

/-! Held sneak of a Bedrock bot: what the packets say, against the history of the calls. -/

namespace AfkClient.BedrockSender

variable {α τ : Type}

/-! ### The history -/

/-- The position of a teleport was reported. -/
def Event.teleports : Event α τ → Bool
  | .updatePosition position _ _ teleport => position.isSome && teleport
  | _ => false

/-- A reason to send the sneak state again, if `held` is the state before. -/
def Event.edge (held : Bool) : Event α τ → Bool
  | .setSneak sneaking resync => resync || held != sneaking
  | event => event.teleports

/-- The last requested sneak state. -/
def requested : History α τ → Bool
  | [] => false
  | (.setSneak sneaking _, _) :: _ => sneaking
  | _ :: history => requested history

/-- There was such a reason since the last packet, or there was no packet. -/
def pendingEdge : History α τ → Bool
  | [] => true
  | (event, packet) :: history =>
      packet.isNone && (pendingEdge history || event.edge (requested history))

/-- A teleport was reported since the last packet. -/
def pendingTeleport : History α τ → Bool
  | [] => false
  | (event, packet) :: history => packet.isNone && (pendingTeleport history || event.teleports)

/-- The block actions that were queued since the last packet and not cleared. -/
def pendingActions : History α τ → List α
  | [] => []
  | (_, some _) :: _ => []
  | (.queueBlockAction action, none) :: history => pendingActions history ++ [action]
  | (.clearMouseActions, none) :: _ => []
  | (_, none) :: history => pendingActions history

/-- The sender remembers what the history says. -/
structure Agrees (s : Sender α) (history : History α τ) : Prop where
  sneaking : s.sneaking = requested history
  sneakEdge : s.sneakEdge = pendingEdge history
  handledTeleport : s.handledTeleport = pendingTeleport history
  queuedBlockActions : s.queuedBlockActions = pendingActions history

theorem tickInput_cases (mouse : InputFrame α τ) (accepted : Bool) (s : Sender α) :
    (∃ packet, s.inputPacket mouse = some packet ∧ accepted = true ∧
      s.tickInput mouse accepted = ({ s with
        inputTick := s.inputTick + 1, sneakEdge := false, handledTeleport := false,
        queuedBlockActions := [] }, some packet)) ∨
    (s.tickInput mouse accepted).2 = none ∧ ∃ tick,
      (s.tickInput mouse accepted).1 = { s with inputTick := tick } := by
  rw [Sender.tickInput]
  cases s.inputPacket mouse with
  | none => exact .inr ⟨rfl, s.inputTick, rfl⟩
  | some packet =>
      cases accepted with
      | true => exact .inl ⟨packet, rfl, rfl, rfl⟩
      | false => exact .inr ⟨rfl, s.inputTick + 1, rfl⟩

theorem Agrees.call {s : Sender α} {history : History α τ} (h : Agrees s history)
    (event : Event α τ) : Agrees (s.call event).1 ((event, (s.call event).2) :: history) := by
  obtain ⟨hsneaking, hedge, hteleport, hactions⟩ := h
  cases event with
  | updatePosition position pitch yaw teleport =>
      cases position with
      | none =>
          constructor <;>
            simpa [Sender.call, Sender.updatePosition, requested, pendingEdge, pendingTeleport,
              pendingActions, Event.edge, Event.teleports]
      | some position =>
          constructor <;>
            simp [Sender.call, Sender.updatePosition, requested, pendingEdge, pendingTeleport,
              pendingActions, Event.edge, Event.teleports, hsneaking, hedge, hteleport, hactions]
  | tickInput mouse accepted =>
      rcases tickInput_cases mouse accepted s with ⟨packet, -, -, hsent⟩ | ⟨hnone, tick, hstate⟩
      · rw [Sender.call, hsent]
        exact ⟨hsneaking, rfl, rfl, rfl⟩
      · rw [Sender.call, hnone, hstate]
        constructor <;>
          simpa [requested, pendingEdge, pendingTeleport, pendingActions, Event.edge, Event.teleports]
  | setSneak sneaking resync =>
      constructor <;>
        simp [Sender.call, Sender.setSneak, requested, pendingEdge, pendingTeleport, pendingActions,
          Event.edge, Event.teleports, Bool.or_assoc, hsneaking, hedge, hteleport, hactions]
  | _ =>
      constructor <;>
        simp [Sender.call, Sender.setRuntimeEntityId, Sender.queueBlockAction,
          Sender.clearMouseActions, Sender.setInputTick, requested, pendingEdge, pendingTeleport,
          pendingActions, Event.edge, Event.teleports, hsneaking, hedge, hteleport, hactions]

theorem run_agrees (modern : Bool) (events : List (Event α τ)) :
    Agrees (run modern events).1 (run modern events).2 := by
  induction events with
  | nil => exact ⟨rfl, rfl, rfl, rfl⟩
  | cons event before ih => exact ih.call event

/-! ### Packets -/

/-- A list of names has the flags that are set. -/
theorem mem_names {flags : List (String × Bool)} (hflags : (flags.map Prod.fst).Nodup)
    (flag : String) : decide (flag ∈ (flags.filter (·.2)).map Prod.fst) =
      (flags.lookup flag).getD false := by
  induction flags with
  | nil => rfl
  | cons entry flags ih =>
      obtain ⟨name, set⟩ := entry
      rw [List.map_cons, List.nodup_cons] at hflags
      have ih := ih hflags.2
      by_cases hname : flag = name
      · subst hname
        have hnot : flag ∉ (flags.filter (·.2)).map Prod.fst := fun hmem =>
          hflags.1 (List.Sublist.subset (List.filter_sublist.map Prod.fst) hmem)
        cases set <;> simp [hnot]
      · rw [List.lookup_cons, beq_false_of_ne hname, ← ih]
        cases set <;> simp [hname]

/-- Either encoding has the flags of the packet. -/
theorem has_inputPacket {mouse : InputFrame α τ} {s : Sender α} {packet : Packet α τ}
    (h : s.inputPacket mouse = some packet) (flag : String) : packet.inputData.has flag =
      ((s.inputFlags mouse (!(s.queuedBlockActions ++ mouse.blockActions).isEmpty)).lookup flag).getD
        false := by
  unfold Sender.inputPacket at h
  split at h
  · obtain rfl := Option.some.inj h
    have hnodup : ∀ blockAction, ((s.inputFlags mouse blockAction).map Prod.fst).Nodup := by
      intro blockAction
      rw [Sender.inputFlags]
      cases mouse.flags <;> simp
    cases s.modern with
    | true => exact mem_names (hnodup _) flag
    | false => rfl
  · cases h

theorem blockAction_inputPacket {mouse : InputFrame α τ} {s : Sender α} {packet : Packet α τ}
    (h : s.inputPacket mouse = some packet) :
    packet.blockAction = s.queuedBlockActions ++ mouse.blockActions := by
  unfold Sender.inputPacket at h
  split at h
  · obtain rfl := Option.some.inj h
    rfl
  · cases h

def Packet.starts (packet : Packet α τ) : Bool := packet.inputData.has "start_sneaking"

def Packet.stops (packet : Packet α τ) : Bool := packet.inputData.has "stop_sneaking"

theorem flags_inputPacket {mouse : InputFrame α τ} {s : Sender α} {packet : Packet α τ}
    (h : s.inputPacket mouse = some packet) : packet.starts = (s.sneaking && s.sneakEdge) ∧
      packet.stops = (!s.sneaking && s.sneakEdge) ∧
      packet.inputData.has "handled_teleport" = s.handledTeleport := by
  rw [Packet.starts, Packet.stops, has_inputPacket h, has_inputPacket h, has_inputPacket h]
  exact ⟨rfl, rfl, rfl⟩

/-! ### The server -/

/-- What a server makes of its state when a packet arrives. -/
def Packet.follow (packet : Packet α τ) (state : Bool) : Bool :=
  if packet.starts then true else if packet.stops then false else state

/-- The sneak state of a server that follows the packets; a teleport may reset it to anything. -/
def server (reset : History α τ → Bool → Bool) : History α τ → Bool
  | [] => false
  | (event, packet) :: history =>
      let state := server reset history
      let state := if event.teleports then reset history state else state
      match packet with
      | none => state
      | some packet => packet.follow state

theorem teleports_le_edge {event : Event α τ} {held : Bool} (h : event.edge held = false) :
    event.teleports = false := by
  cases event with
  | setSneak sneaking resync => rfl
  | _ => exact h

theorem requested_eq {event : Event α τ} {packet : Option (Packet α τ)} {history : History α τ}
    (h : event.edge (requested history) = false) :
    requested ((event, packet) :: history) = requested history := by
  cases event with
  | setSneak sneaking resync =>
      rw [Event.edge, Bool.or_eq_false_iff, bne_eq_false_iff_eq] at h
      exact h.2.symm
  | _ => rfl

theorem call_sends {s : Sender α} {event : Event α τ} {packet : Packet α τ}
    (h : (s.call event).2 = some packet) :
    ∃ mouse, event = .tickInput mouse true ∧ s.inputPacket mouse = some packet := by
  cases event with
  | tickInput mouse accepted =>
      rcases tickInput_cases mouse accepted s with ⟨packet', hpacket, rfl, hsent⟩ | ⟨hnone, -⟩
      · rw [Sender.call, hsent] at h
        exact ⟨mouse, rfl, hpacket.trans h⟩
      · rw [Sender.call, hnone] at h
        cases h
  | _ => cases h

/-- A packet brings the server to the requested state. -/
theorem follow_server {reset : History α τ → Bool → Bool} {s : Sender α} {history : History α τ}
    (hagrees : Agrees s history) {mouse : InputFrame α τ} {packet : Packet α τ}
    (hpacket : s.inputPacket mouse = some packet)
    (h : pendingEdge history = false → server reset history = requested history) :
    server reset ((.tickInput mouse true, some packet) :: history) = requested history := by
  obtain ⟨hstarts, hstops, -⟩ := flags_inputPacket hpacket
  have hserver : server reset ((.tickInput mouse true, some packet) :: history) =
      packet.follow (server reset history) := rfl
  rw [hserver, Packet.follow, hstarts, hstops, ← hagrees.sneaking]
  cases hedge : s.sneakEdge with
  | true => cases s.sneaking <;> rfl
  | false =>
      rw [h (hagrees.sneakEdge.symm.trans hedge), ← hagrees.sneaking]
      cases s.sneaking <;> rfl

/-- Without a pending reason, the server has the requested state. -/
theorem server_eq (reset : History α τ → Bool → Bool) (modern : Bool) (events : List (Event α τ))
    (h : pendingEdge (run modern events).2 = false) :
    server reset (run modern events).2 = requested (run modern events).2 := by
  induction events with
  | nil => cases h
  | cons event before ih =>
      have hagrees := run_agrees modern before
      rw [run] at h ⊢
      generalize run modern before = state at h ih hagrees ⊢
      obtain ⟨s, history⟩ := state
      simp only at h ih hagrees ⊢
      cases hpacket : (s.call event).2 with
      | none =>
          rw [hpacket, pendingEdge, Option.isNone_none, Bool.true_and, Bool.or_eq_false_iff] at h
          rw [requested_eq h.2, server, teleports_le_edge h.2]
          exact ih h.1
      | some packet =>
          obtain ⟨mouse, rfl, hsent⟩ := call_sends hpacket
          exact follow_server hagrees hsent ih

/-! ### A packet -/

/-- The calls since the last packet. -/
def since (history : History α τ) : History α τ := history.takeWhile (·.2.isNone)

theorem pendingTeleport_iff (history : History α τ) :
    pendingTeleport history = true ↔ ∃ entry ∈ since history, entry.1.teleports = true := by
  induction history with
  | nil => simp [pendingTeleport, since]
  | cons entry history ih =>
      obtain ⟨event, packet⟩ := entry
      rw [since] at ih ⊢
      cases packet with
      | none =>
          rw [pendingTeleport, Option.isNone_none, Bool.true_and, Bool.or_eq_true, ih,
            List.takeWhile_cons_of_pos rfl]
          simp only [List.mem_cons, exists_eq_or_imp]
          exact or_comm
      | some packet => simp [pendingTeleport]

/-- A packet that is sent brings the server to the requested state and carries all that is pending;
one that is not sent loses none of it. -/
theorem tickInput_spec (modern : Bool) (reset : History α τ → Bool → Bool)
    (events : List (Event α τ)) (mouse : InputFrame α τ) :
    (∀ packet, ((run modern events).1.call (.tickInput mouse true)).2 = some packet →
      server reset ((.tickInput mouse true, some packet) :: (run modern events).2) =
          requested (run modern events).2 ∧
        (packet.starts && packet.stops) = false ∧
        (packet.stops = true → requested (run modern events).2 = false) ∧
        (packet.starts || packet.stops) = pendingEdge (run modern events).2 ∧
        (packet.inputData.has "handled_teleport" = true ↔
          ∃ entry ∈ since (run modern events).2, entry.1.teleports = true) ∧
        packet.blockAction = pendingActions (run modern events).2 ++ mouse.blockActions) ∧
    (∀ accepted, ((run modern events).1.call (.tickInput mouse accepted)).2 = none →
      ∃ tick, ((run modern events).1.call (.tickInput mouse accepted)).1 =
        { (run modern events).1 with inputTick := tick }) := by
  have hagrees := run_agrees modern events
  have hserver := server_eq reset modern events
  generalize run modern events = state at hagrees hserver ⊢
  obtain ⟨s, history⟩ := state
  simp only at hagrees hserver ⊢
  refine ⟨fun packet hpacket => ?_, fun accepted hnone => ?_⟩
  · obtain ⟨_, heq, hsent⟩ := call_sends hpacket
    obtain ⟨rfl, -⟩ := Event.tickInput.inj heq
    obtain ⟨hstarts, hstops, hteleport⟩ := flags_inputPacket hsent
    refine ⟨follow_server hagrees hsent hserver, ?_, ?_, ?_, ?_, ?_⟩
    · rw [hstarts, hstops]
      cases s.sneaking <;> simp
    · rw [hstops, ← hagrees.sneaking]
      cases s.sneaking <;> simp
    · rw [hstarts, hstops, ← hagrees.sneakEdge]
      cases s.sneaking <;> simp
    · rw [hteleport, hagrees.handledTeleport, pendingTeleport_iff]
    · rw [blockAction_inputPacket hsent, hagrees.queuedBlockActions]
  · rcases tickInput_cases mouse accepted s with ⟨packet, -, -, hsent⟩ | ⟨-, hstate⟩
    · rw [Sender.call, hsent] at hnone
      cases hnone
    · exact hstate

/-- Calls up to a held sneak, the latest first. -/
def heldCalls : List (Event Unit Unit) :=
  [.setSneak true false, .updatePosition (some ⟨12, 65, 3⟩) (some 0) (some 0) true,
    .setRuntimeEntityId (some 123)]

theorem tickInput_spec_held : ∃ packet : Packet Unit Unit,
    ((run true heldCalls).1.call (.tickInput {} true)).2 = some packet ∧
      (packet.starts || packet.stops) = pendingEdge (run true heldCalls).2 :=
  ⟨_, rfl, ((tickInput_spec true (fun _ state => state) heldCalls {}).1 _ rfl).2.2.2.1⟩

end AfkClient.BedrockSender
