import Mathlib.Data.List.Basic
import Mathlib.Data.Rat.Init
import Mathlib.Data.Int.Notation

/-! The input packets of a Bedrock bot (`bedrock-bot/send.ts`). Block actions and transactions are
any objects; the angles of the camera, which repeat pitch and yaw, are left out. -/

namespace AfkClient.BedrockSender

structure Position where
  x : ℚ
  y : ℚ
  z : ℚ
  deriving DecidableEq

/-- The flags that the held mouse button sets. -/
structure MouseFlags where
  itemInteract : Bool
  startUsingItem : Bool
  deriving DecidableEq

variable {α τ : Type}

/-- What the mouse adds to a packet; `sent` is the business of its owner. -/
structure InputFrame (α τ : Type) where
  flags : Option MouseFlags := none
  transaction : Option τ := none
  blockActions : List α := []

structure Sender (α : Type) where
  /-- The codec is that of 26.40 or later. -/
  modern : Bool
  runtimeEntityId : Option ℤ := none
  position : Option Position := none
  pitch : ℚ := 0
  yaw : ℚ := 0
  inputTick : ℤ := 0
  sneaking : Bool := false
  sneakEdge : Bool := true
  handledTeleport : Bool := false
  queuedBlockActions : List α := []

/-- From 26.40 on the flags are a list of names. -/
inductive InputData
  | names (flags : List String)
  | record (flags : List (String × Bool))

def InputData.has (flag : String) : InputData → Bool
  | .names flags => flag ∈ flags
  | .record flags => (flags.lookup flag).getD false

/-- `player_auth_input` -/
structure Packet (α τ : Type) where
  pitch : ℚ
  yaw : ℚ
  position : Position
  inputData : InputData
  tick : ℤ
  transaction : Option τ
  blockAction : List α

namespace Sender

def setRuntimeEntityId (id : Option ℤ) (s : Sender α) : Sender α :=
  { s with runtimeEntityId := id.or s.runtimeEntityId }

def queueBlockAction (action : α) (s : Sender α) : Sender α :=
  { s with queuedBlockActions := s.queuedBlockActions ++ [action] }

def clearMouseActions (s : Sender α) : Sender α := { s with queuedBlockActions := [] }

/-- A position with a coordinate that is not finite is `none`, and so is such an angle. -/
def updatePosition (position : Option Position) (pitch yaw : Option ℚ) (teleport : Bool)
    (s : Sender α) : Sender α :=
  match position with
  | none => s
  | some p =>
      { s with
        position := some p
        pitch := pitch.getD s.pitch
        yaw := yaw.getD s.yaw
        handledTeleport := s.handledTeleport || teleport
        sneakEdge := s.sneakEdge || teleport }

def setInputTick (tick : ℤ) (s : Sender α) : Sender α := { s with inputTick := tick }

def setSneak (sneaking resync : Bool) (s : Sender α) : Sender α :=
  { s with
    sneakEdge := s.sneakEdge || resync || s.sneaking != sneaking
    sneaking := sneaking }

/-- The flags of a packet; those of the mouse stand in front of the last one. -/
def inputFlags (mouse : InputFrame α τ) (blockAction : Bool) (s : Sender α) : List (String × Bool) :=
  [("sneaking", s.sneaking), ("sneak_down", s.sneaking), ("sneak_current_raw", s.sneaking),
    ("persist_sneak", s.sneaking), ("start_sneaking", s.sneaking && s.sneakEdge),
    ("stop_sneaking", !s.sneaking && s.sneakEdge), ("sneak_pressed_raw", s.sneaking && s.sneakEdge),
    ("sneak_released_raw", !s.sneaking && s.sneakEdge), ("handled_teleport", s.handledTeleport)] ++
  (match mouse.flags with
    | none => []
    | some flags =>
        [("item_interact", flags.itemInteract), ("start_using_item", flags.startUsingItem)]) ++
  [("block_action", blockAction)]

/-- The packet of a tick, if the bot knows its entity and its position. -/
def inputPacket (mouse : InputFrame α τ) (s : Sender α) : Option (Packet α τ) :=
  match s.runtimeEntityId, s.position with
  | some _, some position =>
      let blockActions := s.queuedBlockActions ++ mouse.blockActions
      let flags := s.inputFlags mouse (!blockActions.isEmpty)
      some {
        pitch := s.pitch
        yaw := s.yaw
        position := position
        inputData :=
          if s.modern then .names ((flags.filter (·.2)).map (·.1)) else .record flags
        tick := s.inputTick + 1
        transaction := mouse.transaction
        blockAction := blockActions }
  | _, _ => none

/-- `tickInput`, with the packet if it was sent; `queue` does not throw if `accepted`. -/
def tickInput (mouse : InputFrame α τ) (accepted : Bool) (s : Sender α) :
    Sender α × Option (Packet α τ) :=
  match s.inputPacket mouse with
  | none => (s, none)
  | some packet =>
      let s := { s with inputTick := s.inputTick + 1 }
      if accepted then
        ({ s with sneakEdge := false, handledTeleport := false, queuedBlockActions := [] },
          some packet)
      else (s, none)

end Sender

/-! ### Runs -/

inductive Event (α τ : Type)
  | setRuntimeEntityId (id : Option ℤ)
  | queueBlockAction (action : α)
  | clearMouseActions
  | updatePosition (position : Option Position) (pitch yaw : Option ℚ) (teleport : Bool)
  | setInputTick (tick : ℤ)
  | setSneak (sneaking resync : Bool)
  | tickInput (mouse : InputFrame α τ) (accepted : Bool)

/-- A call, with the packet it sent. -/
def Sender.call (s : Sender α) : Event α τ → Sender α × Option (Packet α τ)
  | .setRuntimeEntityId id => (s.setRuntimeEntityId id, none)
  | .queueBlockAction action => (s.queueBlockAction action, none)
  | .clearMouseActions => (s.clearMouseActions, none)
  | .updatePosition position pitch yaw teleport => (s.updatePosition position pitch yaw teleport, none)
  | .setInputTick tick => (s.setInputTick tick, none)
  | .setSneak sneaking resync => (s.setSneak sneaking resync, none)
  | .tickInput mouse accepted => s.tickInput mouse accepted

/-- The calls so far with the packets they sent, the latest first. -/
abbrev History (α τ : Type) := List (Event α τ × Option (Packet α τ))

/-- The sender after some calls, the latest first, and their history. -/
def run (modern : Bool) : List (Event α τ) → Sender α × History α τ
  | [] => ({ modern := modern }, [])
  | event :: before =>
      let (s, history) := run modern before
      ((s.call event).1, (event, (s.call event).2) :: history)

end AfkClient.BedrockSender
