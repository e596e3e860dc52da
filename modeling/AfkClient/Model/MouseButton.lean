import AfkClient.Model.BedrockSender

/-! The held mouse button of a Bedrock bot (`bedrock-bot/autoButton.ts`), as far as it decides what
is sent. The block and the entities in view, the hand and the menus are what a tick finds; sections
are asked for elsewhere. Times are exact milliseconds. -/

namespace AfkClient.MouseButton

open BedrockSender (Position Sender InputFrame Packet)

inductive Mode
  | off
  | left
  | right
  deriving DecidableEq

/-- Coordinates of a block. -/
abbrev Block := ℤ × ℤ × ℤ

inductive BreakKind
  | startBreak
  | continueBreak
  | predictBreak
  | abortBreak
  deriving DecidableEq

structure BlockAction where
  action : BreakKind
  position : Block
  face : ℕ
  deriving DecidableEq

/-- A block in reach; the time to dig it is `none` if it is infinite. -/
structure Target where
  position : Block
  runtime : ℕ
  distance : ℚ
  face : ℕ
  point : Position
  digTime : Option ℚ

structure EntityHit where
  runtime : ℤ
  height : ℚ
  distance : ℚ

variable {η : Type}

/-- The transaction of a use; a hand is a slot with its item. -/
structure ItemUse (η : Type) where
  clickBlock : Bool
  blockPosition : Block
  face : ℕ
  hand : η
  playerPos : Position
  clickPos : Position
  blockRuntimeId : ℕ

/-- The transaction `item_release`. -/
structure Release (η : Type) where
  hand : η
  headPos : Position

structure Mining where
  position : Block
  face : ℕ
  runtime : ℕ
  started : ℚ
  duration : Option ℚ

structure Button (η : Type) where
  mode : Mode := .off
  registry : Bool := false
  startGameData : Bool := false
  useUntil : ℚ := 0
  usingItem : Bool := false
  useRequested : Bool := false
  lastUseHand : Option η := none
  releasePending : Option (Release η) := none
  mining : Option Mining := none
  lastAttack : ℚ := 0

/-- What a tick finds. -/
structure Look (η : Type) where
  now : ℚ
  /-- A pending release can be sent. -/
  released : Bool
  hand : Option η
  mouseBlocked : Bool
  /-- `none` if the world is not known there, `some none` if no block is in reach. -/
  target : Option (Option Target)
  entities : List EntityHit
  /-- An attack can be sent. -/
  attacked : Bool

/-- What happened so far: changes of the mode and the packets that were sent. -/
inductive Entry (η : Type)
  | modeChange (before after : Mode)
  | release (transaction : Release η)
  | attack (entity : ℤ) (mode : Mode)
  | input (packet : Packet BlockAction (ItemUse η))

namespace Button

/-- `flushRelease`, with its answer and what it sent. -/
def flushRelease (released : Bool) (b : Button η) : Button η × Bool × List (Entry η) :=
  match b.releasePending with
  | none => (b, true, [])
  | some release =>
      if released then ({ b with releasePending := none }, true, [.release release])
      else (b, false, [])

def abortOf (m : Mining) : BlockAction := ⟨.abortBreak, m.position, m.face⟩

/-- A change of the mode; `hand` is `inventory.mouseHand`. -/
def configure (mode : Mode) (hand : Option η) (released : Bool) (sender : Sender BlockAction)
    (b : Button η) : Button η × Sender BlockAction × List (Entry η) :=
  if mode = b.mode then (b, sender, [])
  else
    let pending :=
      match sender.position, hand.or b.lastUseHand with
      | some view, some hand =>
          if b.mode = .right ∧ b.useRequested then some ⟨hand, view⟩ else b.releasePending
      | _, _ => b.releasePending
    let (b', _, log) := flushRelease released { b with releasePending := pending }
    let sender :=
      match b.mining with
      | some m => sender.queueBlockAction (abortOf m)
      | none => sender
    ({ b' with
        mode := mode
        mining := none
        useUntil := 0
        useRequested := false
        registry := b.registry || (mode ≠ .off && b.startGameData) },
      sender, .modeChange b.mode mode :: log)

/-- The nearest entity in front of the block. -/
def entityInFront (target : Option Target) (entities : List EntityHit) : Option EntityHit :=
  ((entities.filter fun hit =>
      hit.distance ≤ 3 && hit.distance < (target.map (·.distance)).getD 5).mergeSort
    fun a b => a.distance ≤ b.distance).head?

/-- The block that is mined is not the one in reach. -/
def leaves (m : Mining) (target : Option Target) : Bool :=
  target.all fun t => m.position ≠ t.position || m.runtime ≠ t.runtime

/-- The answer of a tick: the button, the frame, what its callback does once the packet is sent,
and what the tick sent itself. -/
structure Answer (η : Type) where
  button : Button η
  frame : InputFrame BlockAction (ItemUse η) := {}
  sent : Button η → Button η := id
  log : List (Entry η) := []

def difference (a : Position) (b : Block) : Position := ⟨a.x - b.1, a.y - b.2.1, a.z - b.2.2⟩

/-- An entity stands in front: the button hits it and lets go of the block. -/
def tickEntity (now : ℚ) (attacked : Bool) (entity : EntityHit) (b : Button η) : Answer η :=
  let (b, log) : Button η × List (Entry η) :=
    if b.lastAttack ≤ now && attacked then
      ({ b with lastAttack := now + if b.mode = .left then 500 else 200 },
        [.attack entity.runtime b.mode])
    else (b, [])
  match b.mining with
  | some m =>
      { button := b
        frame := { blockActions := [abortOf m] }
        sent := fun b => { b with mining := none }
        log := log }
  | none => { button := b, log := log }

def tickRight (now : ℚ) (view : Position) (hand : η) (target : Option Target) (b : Button η) :
    Answer η :=
  if b.usingItem || now < b.useUntil then { button := b }
  else
    let position := (target.map (·.position)).getD (0, 0, 0)
    { button := b
      frame := {
        flags := some ⟨true, !b.useRequested⟩
        transaction := some {
          clickBlock := target.isSome
          blockPosition := position
          face := (target.map (·.face)).getD 0
          hand := hand
          playerPos := view
          clickPos := (target.map fun t => difference t.point position).getD ⟨0, 0, 0⟩
          blockRuntimeId := (target.map (·.runtime)).getD 0 } }
      sent := fun b =>
        { b with useUntil := now + 200, useRequested := true, lastUseHand := some hand } }

/-- The block action on the target, once an abort is built. -/
def tickTarget (now : ℚ) (target : Target) (aborts : List BlockAction) (b : Button η) : Answer η :=
  match b.mining with
  | none =>
      { button := b
        frame := { blockActions := aborts ++ [⟨.startBreak, target.position, target.face⟩] }
        sent := fun b =>
          { b with
            mining := some ⟨target.position, target.face, target.runtime, now, target.digTime⟩ } }
  | some m =>
      if m.duration.any (· ≤ now - m.started) then
        { button := b
          frame := { blockActions := aborts ++ [⟨.predictBreak, target.position, target.face⟩] }
          sent := fun b =>
            { b with mining := b.mining.map fun m =>
                { m with started := now + 1000 - m.duration.getD 0 } } }
      else
        { button := b
          frame := { blockActions := aborts ++ [⟨.continueBreak, target.position, target.face⟩] } }

def tickLeft (now : ℚ) (target : Option Target) (b : Button η) : Answer η :=
  let (b, aborts) : Button η × List BlockAction :=
    match b.mining with
    | some m => if leaves m target then ({ b with mining := none }, [abortOf m]) else (b, [])
    | none => (b, [])
  match target with
  | some target => tickTarget now target aborts b
  | none => { button := b, frame := { blockActions := aborts } }

/-- `tick`, with the position of the player's view. -/
def tick (look : Look η) (view : Option Position) (b : Button η) : Answer η :=
  let (b, flushed, log) : Button η × Bool × List (Entry η) := b.flushRelease look.released
  if !flushed then { button := b }
  else
    match view, look.hand, look.target with
    | some view, some hand, some target =>
        if decide (b.mode = .off) || !b.registry || look.mouseBlocked then { button := b, log := log }
        else
          let answer :=
            match entityInFront target look.entities with
            | some entity => tickEntity look.now look.attacked entity b
            | none =>
                if b.mode = Mode.right then tickRight look.now view hand target b
                else tickLeft look.now target b
          { answer with log := log ++ answer.log }
    | _, _, _ => { button := b, log := log }

end Button

/-! ### Runs -/

structure State (η : Type) where
  sender : Sender BlockAction
  button : Button η := {}
  log : List (Entry η) := []

inductive Event (η : Type)
  | configure (mode : Mode) (hand : Option η) (released : Bool)
  | tickInput (look : Look η) (accepted : Bool)
  | observeMetadata (usingItem : Bool)
  | setRuntimeEntityId (id : Option ℤ)
  | updatePosition (position : Option Position) (pitch yaw : Option ℚ) (teleport : Bool)
  | setInputTick (tick : ℤ)
  | setSneak (sneaking resync : Bool)

namespace State

/-- `tickInput` with the frame of the button, which is asked only if a packet can be made. -/
def tickInput (look : Look η) (accepted : Bool) (s : State η) : State η :=
  if s.sender.runtimeEntityId.isSome && s.sender.position.isSome then
    let answer := s.button.tick look s.sender.position
    let (sender, packet) := s.sender.tickInput answer.frame accepted
    { sender := sender
      button := if packet.isSome then answer.sent answer.button else answer.button
      log := s.log ++ answer.log ++ (packet.map Entry.input).toList }
  else s

def step (s : State η) : Event η → State η
  | .configure mode hand released =>
      let (button, sender, log) := s.button.configure mode hand released s.sender
      { sender := sender, button := button, log := s.log ++ log }
  | .tickInput look accepted => s.tickInput look accepted
  | .observeMetadata usingItem => { s with button := { s.button with usingItem := usingItem } }
  | .setRuntimeEntityId id => { s with sender := s.sender.setRuntimeEntityId id }
  | .updatePosition position pitch yaw teleport =>
      { s with sender := s.sender.updatePosition position pitch yaw teleport }
  | .setInputTick tick => { s with sender := s.sender.setInputTick tick }
  | .setSneak sneaking resync => { s with sender := s.sender.setSneak sneaking resync }

def run (s : State η) (events : List (Event η)) : State η := events.foldl step s

/-- The state after `reset` or `teleported`, with a new log. -/
def cleared (s : State η) : State η where
  sender := s.sender.clearMouseActions
  button := { s.button with
    mining := none
    usingItem := false
    useUntil := 0
    useRequested := false
    releasePending := none }
  log := []

end State

end AfkClient.MouseButton
