import AfkClient.Library.Text
import Mathlib.Algebra.Order.Monoid.Unbundled.WithTop
import Mathlib.Algebra.Order.Ring.Rat

/-! The scheduler of a Bedrock bot (`bedrock-bot/behaviors.ts`). The inventory is any object with
the operations the scheduler calls. The mouse button stands apart, and so does the text of a log
line. Times are exact milliseconds, one for each call. -/

namespace AfkClient.BedrockBehaviors

open Re Text

def HEARTBEAT_INTERVAL_MS : ℚ := 15000
def SPAWN_STABILIZE_MS : ℚ := 250
def TELEPORT_STABILIZE_MS : ℚ := 100
def TELEPORT_COMMAND_GUARD_MS : ℚ := 750
def CHAT_COMMAND_GUARD_MS : ℚ := 100
def INVENTORY_BUSY_DELAY_MS : ℚ := 250

inductive ForegroundTask
  | command (text : String)
  | sellMultipliers
  | cleanSpawner
  deriving DecidableEq

/-! ### Texts -/

/-- `text.trim()` -/
def trimmed (text : String) : String := .ofList (trim text.toList)

def teleportCommands : List String :=
  ["home", "spawn", "warp", "server", "hub", "lobby", "back", "rtp", "wild", "tp", "tpa", "tpahere",
    "tphere", "tpaccept", "tpyes", "is", "island", "skyblock"]

def isTeleportCommand (text : String) : Bool :=
  match trim text.toList with
  | '/' :: rest =>
      toLowerCase (rest.takeWhile (! isSpace ·)) ∈ teleportCommands.map String.toList
  | _ => false

def isInventoryBusyMessage (message : String) : Bool :=
  let lower := toLowerCase message.toList
  let includes (word : String) : Bool := (lit word).test lower
  (includes "inventar" || includes "inventory") &&
    ((includes "gespeichert" && includes "geladen") || includes "saved or loaded" ||
      includes "saving or loading" || includes "being saved" || includes "being loaded")

/-- `message.replace(/§./g, "")`; the half of a character that is left stands as U+FFFD. -/
def removeCodes : List Char → List Char
  | '§' :: c :: rest =>
      if isLineTerminator c then '§' :: removeCodes (c :: rest)
      else if c.val < 0x10000 then removeCodes rest
      else '\ufffd' :: removeCodes rest
  | c :: rest => c :: removeCodes rest
  | [] => []

/-- `text.replace(/^(?:<HugoSMP>|\[HugoSMP\])\s*/, "")` -/
def removeTag (text : List Char) : List Char :=
  if "<HugoSMP>".toList <+: text ∨ "[HugoSMP]".toList <+: text then
    (text.drop 9).dropWhile isSpace
  else text

def teleportSuccess : Re :=
  oneOf [seqs [bos, lit "Du wurdest zu deinem Home ", some1 dot, lit " teleportiert!", eos],
    seqs [bos, some1 (set (· ≠ ':')), lit " hat deine Teleportations-Anfrage angenommen!", eos],
    seqs [bos, lit "Du hast die Teleportations-Anfrage von ", some1 dot, lit " angenommen!", eos]]

def isTeleportMessage (sender : Option String) (message : String) : Bool :=
  (sender.all fun name => name = "" || toLowerCase name.toList = "hugosmp".toList) &&
    teleportSuccess.test (trim (removeTag (removeCodes message.toList)))

/-- `/^\/(?:tpaccept|tpyes)(?:\s|$)/i` -/
def teleportAnswer : Re :=
  seqs [bos, lit "/", oneOf [ilit "tpaccept", ilit "tpyes"], oneOf [space, eos]]

/-! ### State -/

structure BehaviorConfig where
  crouchEnabled : Bool := false
  autosellEnabled : Option Bool := none
  autosellIntervalSeconds : Option ℚ := none
  autosellCommand : Option String := none

variable {ι : Type}

/-- The operations of `BedrockInventory`; a method that reads the clock has the time. -/
structure InventoryOps (ι : Type) where
  reset : ι → ι
  interrupt (now : ℚ) (closeForeign manualSell : Bool) : ι → ι
  requestMultipliers (now : ℚ) : ι → ι
  request (now : ℚ) : ι → ι
  tick (now : ℚ) : ι → ι
  tickMultipliers (now : ℚ) : ι → ι
  busy : ι → Bool
  blocked : ι → Bool
  synchronized : ι → Bool
  readingMultipliers : ι → Bool

structure BehaviorState (ι : Type) where
  inventory : ι
  nextCrouchCheckAt : ℚ := 0
  teleportCrouchChecks : List ℚ := []
  manualAutosellPauseUntil : ℚ := 0
  cfg : BehaviorConfig
  spawned : Bool := false
  lastHeartbeatAt : ℚ := 0
  nextAutosellAt : WithTop ℚ
  restartPauseStart : ℚ
  restartPauseEnd : ℚ
  automationReadyAt : WithTop ℚ := ⊤
  manualQueue : List ForegroundTask := []
  queue : List ForegroundTask := []
  sneaking : Bool := false
  serverSneaking : Option Bool := none
  crouchResyncGraceUntil : ℚ := 0
  crouchResyncPending : Bool := false

/-- What a call sends or emits. -/
inductive Output
  | heartbeat
  | setSneak (sneaking resync : Bool)
  | tickInput
  /-- The command of the automatic sale. -/
  | sell (command : String)
  | sellMultipliers
  | send (text : String)
  | behaviorLog
  | warning
  deriving DecidableEq

namespace BehaviorState

def pauseAutosell (now afterMs resumeMs : ℚ) (s : BehaviorState ι) : BehaviorState ι :=
  { s with restartPauseStart := now + afterMs, restartPauseEnd := now + resumeMs }

def init (inventory : ι) (config : BehaviorConfig) (now afterMs resumeMs : ℚ) :
    BehaviorState ι where
  inventory := inventory
  cfg := {
    crouchEnabled := config.crouchEnabled
    autosellEnabled := some (config.autosellEnabled.getD false)
    autosellIntervalSeconds := some (config.autosellIntervalSeconds.getD 60)
    autosellCommand := some (config.autosellCommand.getD "/sell") }
  nextAutosellAt := now
  restartPauseStart := now + afterMs
  restartPauseEnd := now + resumeMs

def applyCrouch (on resync : Bool) (s : BehaviorState ι) : BehaviorState ι × List Output :=
  ({ s with sneaking := on }, [.setSneak on resync])

def scheduleTeleportCrouchCheck (now : ℚ) (s : BehaviorState ι) : BehaviorState ι :=
  let deadline := now + 3000
  if s.teleportCrouchChecks.getLast?.any fun last => deadline - last < 50 then s
  else
    let checks := s.teleportCrouchChecks ++ [deadline]
    { s with teleportCrouchChecks := if 64 < checks.length then checks.tail else checks }

def checkCrouch (now : ℚ) (s : BehaviorState ι) : BehaviorState ι :=
  if s.cfg.crouchEnabled then { s with crouchResyncPending := true, nextCrouchCheckAt := now } else s

def postponeAutomation (deadline : ℚ) (s : BehaviorState ι) : BehaviorState ι :=
  { s with
    automationReadyAt := max s.automationReadyAt deadline
    nextAutosellAt := max s.nextAutosellAt deadline }

def autosellChanged (cfg cfg' : BehaviorConfig) : Bool :=
  cfg.autosellEnabled ≠ cfg'.autosellEnabled ||
    cfg.autosellIntervalSeconds ≠ cfg'.autosellIntervalSeconds ||
    cfg.autosellCommand ≠ cfg'.autosellCommand

def updateConfig (ops : InventoryOps ι) (now : ℚ) (cfg : BehaviorConfig) (s : BehaviorState ι) :
    BehaviorState ι × List Output :=
  let wasCrouch := s.cfg.crouchEnabled
  let changed := autosellChanged s.cfg cfg
  let enabled := cfg.autosellEnabled == some true
  let s := { s with
    cfg := cfg
    inventory := if enabled then s.inventory else ops.interrupt now false false s.inventory
    nextAutosellAt := if changed && enabled then max now s.automationReadyAt else s.nextAutosellAt }
  if cfg.crouchEnabled = wasCrouch then (s, []) else s.applyCrouch cfg.crouchEnabled false

def markSpawned (now : ℚ) (s : BehaviorState ι) : BehaviorState ι :=
  { s with
    spawned := true
    automationReadyAt := (now + SPAWN_STABILIZE_MS : ℚ)
    nextAutosellAt := (now + SPAWN_STABILIZE_MS : ℚ)
    crouchResyncPending := true
    serverSneaking := none }

def markJoining (ops : InventoryOps ι) (s : BehaviorState ι) : BehaviorState ι :=
  { s with
    inventory := ops.reset s.inventory
    spawned := false
    crouchResyncPending := true
    serverSneaking := none
    automationReadyAt := ⊤ }

def markTeleported (ops : InventoryOps ι) (now : ℚ) (s : BehaviorState ι) : BehaviorState ι :=
  let s := s.scheduleTeleportCrouchCheck now
  { s with
    inventory := ops.interrupt now false false s.inventory
    spawned := true
    automationReadyAt := (now + TELEPORT_STABILIZE_MS : ℚ)
    nextAutosellAt := (now + TELEPORT_STABILIZE_MS : ℚ)
    crouchResyncPending := true
    serverSneaking := none }

def enqueueChat (text : String) (s : BehaviorState ι) : BehaviorState ι :=
  if trimmed text = "" then s
  else { s with manualQueue := s.manualQueue ++ [.command (trimmed text)] }

def enqueueCleanSpawner (s : BehaviorState ι) : BehaviorState ι :=
  { s with queue := s.queue ++ [.cleanSpawner] }

def enqueueSellMultipliers (s : BehaviorState ι) : BehaviorState ι :=
  { s with manualQueue := s.manualQueue ++ [.sellMultipliers] }

/-! ### Ticks -/

def runForeground (ops : InventoryOps ι) (task : ForegroundTask) (now : ℚ) (manual : Bool)
    (s : BehaviorState ι) : BehaviorState ι × List Output :=
  match task with
  | .sellMultipliers =>
      let inventory := ops.requestMultipliers now (ops.interrupt now true false s.inventory)
      ({ s with inventory := inventory }.postponeAutomation (now + CHAT_COMMAND_GUARD_MS),
        [.sellMultipliers])
  | .command text =>
      let manualSell := trimmed text = trimmed (s.cfg.autosellCommand.getD "/sell")
      let s := { s with
        manualAutosellPauseUntil := if manual then now + 5000 else s.manualAutosellPauseUntil
        inventory := ops.interrupt now true manualSell s.inventory }
      let s :=
        if teleportAnswer.test (trim text.toList) then s.scheduleTeleportCrouchCheck now else s
      let guard := if isTeleportCommand text then TELEPORT_COMMAND_GUARD_MS else CHAT_COMMAND_GUARD_MS
      (s.postponeAutomation (now + guard), [.send text, .behaviorLog])
  | .cleanSpawner => (s, [.warning])

def runCrouchChecks (now : ℚ) (s : BehaviorState ι) : BehaviorState ι :=
  let rest := s.teleportCrouchChecks.dropWhile (· ≤ now)
  if s.spawned && rest.length < s.teleportCrouchChecks.length then
    { s with teleportCrouchChecks := rest }.checkCrouch now
  else s

def tickHeartbeat (now : ℚ) (s : BehaviorState ι) : BehaviorState ι × List Output :=
  if HEARTBEAT_INTERVAL_MS ≤ now - s.lastHeartbeatAt then
    ({ s with lastHeartbeatAt := now }, [.heartbeat])
  else (s, [])

def tickCrouch (now : ℚ) (s : BehaviorState ι) : BehaviorState ι × List Output :=
  if s.spawned ∧ s.automationReadyAt ≤ now ∧ s.cfg.crouchEnabled ∧
      (s.sneaking = false ∨ s.crouchResyncPending ∨ s.nextCrouchCheckAt ≤ now) then
    let resync := s.crouchResyncPending || s.serverSneaking == some false
    let (s, out) := s.applyCrouch true resync
    ({ s with
      crouchResyncGraceUntil := if resync then now + 2000 else s.crouchResyncGraceUntil
      crouchResyncPending := false
      nextCrouchCheckAt := now + 2000 }, out)
  else (s, [])

/-- `Math.max(0.25, interval) * 1000` -/
def interval (cfg : BehaviorConfig) : ℚ := max (1 / 4) (cfg.autosellIntervalSeconds.getD 60) * 1000

/-- `(command ?? "/sell").trim() || "/sell"` -/
def sellCommand (cfg : BehaviorConfig) : String :=
  let command := trimmed (cfg.autosellCommand.getD "/sell")
  if command = "" then "/sell" else command

def tickSell (ops : InventoryOps ι) (now : ℚ) (s : BehaviorState ι) :
    BehaviorState ι × List Output :=
  let inventory := ops.tick now s.inventory
  if ops.busy inventory || ops.blocked inventory then ({ s with inventory := inventory }, [])
  else if s.nextAutosellAt ≤ now then
    ({ s with
        nextAutosellAt := (now + interval s.cfg : ℚ)
        inventory := ops.request now inventory },
      [.sell (sellCommand s.cfg)])
  else ({ s with inventory := inventory }, [])

def tickAutomation (ops : InventoryOps ι) (now : ℚ) (s : BehaviorState ι) :
    BehaviorState ι × List Output :=
  if ops.readingMultipliers s.inventory then
    ({ s with inventory := ops.tickMultipliers now s.inventory }, [])
  else if s.spawned = false ∨ now < s.automationReadyAt ∨ now < s.manualAutosellPauseUntil then
    (s, [])
  else
    let (s, out, actionSent) : BehaviorState ι × List Output × Bool :=
      match s.queue with
      | task :: rest =>
          let (s, out) := { s with queue := rest }.runForeground ops task now false
          (s, out, true)
      | [] => (s, [], false)
    let sellPaused := s.restartPauseStart ≤ now ∧ now < s.restartPauseEnd
    let s :=
      if sellPaused then { s with inventory := ops.interrupt now false false s.inventory } else s
    if s.cfg.autosellEnabled = some true ∧ actionSent = false ∧ ¬sellPaused ∧
        ops.synchronized s.inventory then
      s.tickSell ops now
    else (s, out)

def tickTasks (ops : InventoryOps ι) (now : ℚ) (s : BehaviorState ι) :
    BehaviorState ι × List Output :=
  match s.spawned, s.manualQueue with
  | true, task :: rest => { s with manualQueue := rest }.runForeground ops task now true
  | _, _ => s.tickAutomation ops now

def onTick (ops : InventoryOps ι) (now : ℚ) (s : BehaviorState ι) : BehaviorState ι × List Output :=
  let s := s.runCrouchChecks now
  let (s, heartbeat) := s.tickHeartbeat now
  let (s, crouch) := s.tickCrouch now
  let input := if s.spawned then [.tickInput] else []
  let (s, sent) := s.tickTasks ops now
  (s, heartbeat ++ crouch ++ input ++ sent)

/-! ### Messages -/

def onChat (ops : InventoryOps ι) (now : ℚ) (sender : Option String) (message : String)
    (s : BehaviorState ι) : BehaviorState ι :=
  let s :=
    if isTeleportMessage sender message then
      { s with crouchResyncPending := true, serverSneaking := none }.scheduleTeleportCrouchCheck now
    else s
  if isInventoryBusyMessage message then
    { s with inventory := ops.interrupt now false false s.inventory }.postponeAutomation
      (now + INVENTORY_BUSY_DELAY_MS)
  else s

def onSneakStatus (now : ℚ) (sneaking : Bool) (s : BehaviorState ι) : BehaviorState ι :=
  let s := { s with serverSneaking := some sneaking }
  if sneaking = false ∧ s.cfg.crouchEnabled ∧ s.crouchResyncGraceUntil ≤ now then
    { s with crouchResyncPending := true, nextCrouchCheckAt := now }
  else s

end BehaviorState

/-! ### Runs -/

inductive Event (ι : Type)
  | onTick
  | enqueueChat (text : String)
  | enqueueSellMultipliers
  | enqueueCleanSpawner
  | updateConfig (cfg : BehaviorConfig)
  | pauseAutosell (afterMs resumeMs : ℚ)
  | markJoining
  | markSpawned
  | markTeleported
  | onChat (sender : Option String) (message : String)
  | onSneakStatus (sneaking : Bool)
  | checkCrouch
  /-- A packet for the inventory. -/
  | inventory (change : ι → ι)

def BehaviorState.step (ops : InventoryOps ι) (now : ℚ) (s : BehaviorState ι) :
    Event ι → BehaviorState ι × List Output
  | .onTick => s.onTick ops now
  | .enqueueChat text => (s.enqueueChat text, [])
  | .enqueueSellMultipliers => (s.enqueueSellMultipliers, [])
  | .enqueueCleanSpawner => (s.enqueueCleanSpawner, [])
  | .updateConfig cfg => s.updateConfig ops now cfg
  | .pauseAutosell afterMs resumeMs => (s.pauseAutosell now afterMs resumeMs, [])
  | .markJoining => (s.markJoining ops, [])
  | .markSpawned => (s.markSpawned now, [])
  | .markTeleported => (s.markTeleported ops now, [])
  | .onChat sender message => (s.onChat ops now sender message, [])
  | .onSneakStatus sneaking => (s.onSneakStatus now sneaking, [])
  | .checkCrouch => (s.checkCrouch now, [])
  | .inventory change => ({ s with inventory := change s.inventory }, [])

structure Entry (ι : Type) where
  time : ℚ
  event : Event ι
  outputs : List Output

/-- The bot as it is built. -/
structure Start (ι : Type) where
  inventory : ι
  config : BehaviorConfig
  now : ℚ
  afterMs : ℚ
  resumeMs : ℚ

def Start.state (start : Start ι) : BehaviorState ι :=
  .init start.inventory start.config start.now start.afterMs start.resumeMs

/-- The state after some calls, the latest first, and what each of them sent. -/
def run (ops : InventoryOps ι) (start : Start ι) :
    List (ℚ × Event ι) → BehaviorState ι × List (Entry ι)
  | [] => (start.state, [])
  | (now, event) :: before =>
      let (s, history) := run ops start before
      let (s', outputs) := s.step ops now event
      (s', ⟨now, event, outputs⟩ :: history)

end AfkClient.BedrockBehaviors
