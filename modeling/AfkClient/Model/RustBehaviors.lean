import AfkClient.Model.RustMultipliers

/-! The automation of a Java bot (`rust-bot/src/behaviors.rs`), without the held keys, the
heartbeat and what is only logged. What a call reads of the client is an argument; what it does
there is collected in an outbox. Times are exact seconds. -/

namespace AfkClient.RustBehaviors

open RustBot (trim splitWhitespace plainText readTopRow tooltip itemTooltip)

/-! ### The client -/

/-- A slot of a menu; the stack of an empty slot is not present. -/
structure ItemStack extends RustBot.ItemStack where
  kind : List Char
  count : ℤ

structure Menu where
  slots : List ItemStack
  /-- `player_slots_range` -/
  playerStart : ℕ
  playerEnd : ℕ
  /-- One of the chests of nine columns. -/
  generic9 : Bool

structure Inventory where
  id : ℤ
  containerMenuTitle : Option (List Char)
  containerMenu : Option Menu

/-- What a call reads of the client. -/
structure Client where
  inGameState : Bool
  inLoadedChunk : Bool
  inventory : Option Inventory
  /-- The menu of the open container, or that of the player. -/
  menu : Option Menu
  menuSession : ℕ
  /-- The spawner that the bot looks at. -/
  spawnerInReach : Option (ℤ × ℤ × ℤ)

/-- What a tick reads of the client, one part after the other. -/
structure Tick where
  recovery : Client
  pause : Client
  manual : Client
  /-- The packet of a manual command can be made. -/
  sent : Bool
  orphan : Client
  foreground : Client
  sale : Client

inductive ManualTask
  | chat (text : List Char)
  | sellMultipliers
  deriving DecidableEq

def ManualTask.text : ManualTask → List Char
  | .chat text => text
  | .sellMultipliers => "/sellmulti".toList

/-- What the bot does at the client. -/
inductive Action
  /-- A command of the automation. -/
  | chat (text : List Char)
  | manual (task : ManualTask) (sent : Bool)
  | close
  | throwAll (slot : ℕ)
  | pickupLeft (slot : ℕ)
  | shiftClick (menuId : ℤ) (slot : ℕ)
  | blockInteract (pos : ℤ × ℤ × ℤ)
  | sellMultipliers (entries : List SellMultiplier)

/-! ### Texts -/

/-- Lower case, as far as it decides whether a text holds words of ASCII letters. -/
def lower (text : List Char) : List Char :=
  text.map fun c => if c = '\u212a' then 'k' else c.toLower

def contains (text : List Char) (word : String) : Bool :=
  text.tails.any (word.toList.isPrefixOf ·)

def isSellMenuTitle (title : List Char) : Bool :=
  lower ([' '].intercalate (splitWhitespace (plainText title))) ∈
    ["items verkaufen".toList, "sell".toList]

def teleportCommands : List String :=
  ["home", "spawn", "warp", "server", "hub", "lobby", "back", "rtp", "wild", "tp", "tpa", "tpahere",
    "tphere", "tpaccept", "tpyes", "is", "island", "skyblock"]

def isTeleportCommand (text : List Char) : Bool :=
  match trim text with
  | '/' :: rest =>
      (splitWhitespace rest).head?.any fun command =>
        String.ofList (command.map Char.toLower) ∈ teleportCommands
  | _ => false

def isInventoryBusyMessage (message : List Char) : Bool :=
  let text := lower message
  (contains text "inventar" || contains text "inventory") &&
    ((contains text "gespeichert" && contains text "geladen") || contains text "saved or loaded" ||
      contains text "saving or loading" || contains text "being saved" ||
      contains text "being loaded")

/-! ### State -/

structure BehaviorConfig where
  autosellEnabled : Bool
  autosellIntervalSeconds : ℚ
  autosellCommand : List Char
  spawnerType : List Char
  spawnerDropItems : List (List Char)
  spawnerSellItems : List (List Char)

def chatBurst : ℚ := 3

structure CommandBudget where
  tokens : ℚ
  updatedAt : ℚ

def CommandBudget.new (now : ℚ) : CommandBudget := ⟨chatBurst, now⟩

def CommandBudget.refill (now : ℚ) (b : CommandBudget) : CommandBudget :=
  ⟨min (b.tokens + max (now - b.updatedAt) 0 / (3 / 2)) chatBurst, now⟩

/-- The budget after `ready`, and its answer. -/
def CommandBudget.ready (now : ℚ) (b : CommandBudget) : CommandBudget × Bool :=
  (b.refill now, 1 ≤ (b.refill now).tokens)

def CommandBudget.record (b : CommandBudget) : CommandBudget := { b with tokens := b.tokens - 1 }

structure MultiplierProgress where
  deadline : ℚ
  menuId : Option ℤ
  nextCheck : ℚ

inductive AutoSellPhase
  | idle
  | waitingForMenu (since : ℚ) (startedEmpty : Bool) (contentReceived : Option (ℤ × ℕ))
  | selling (menuId : ℤ) (session nextSlot endSlot : ℕ)
  | closing (closeAt : ℚ) (menuId : ℤ) (session : ℕ)

def AutoSellPhase.isIdle : AutoSellPhase → Bool
  | .idle => true
  | _ => false

inductive ForegroundTask
  | cleanSpawner

inductive SpawnerStage
  | waitMenu
  | dropping
  | selling
  deriving DecidableEq

structure SpawnerProgress where
  menuDeadline : ℚ
  runDeadline : ℚ
  steps : ℕ
  stage : SpawnerStage
  nextAt : ℚ
  /-- Nothing before the first count. -/
  lastCount : Option ℕ
  stalls : ℕ
  buttonMisses : ℕ
  dropped : ℕ
  sold : ℕ

inductive ActiveTask
  | cleanSpawner (progress : SpawnerProgress)
  | sellMultipliers (progress : MultiplierProgress)

/-! ### Slots of a spawner -/

def spawnerMaxStalls : ℕ := 4

def spawnerMaxSteps : ℕ := 200

def spawnerKeepStacks : ℕ := 1

def spawnerStepDelay : ℚ := 2 / 5

def spawnerSellKeywords : List String := ["verkauf", "sell", "vend", "money", "geld", "$"]

/-- The id without its namespace. -/
def bareItemId (id : List Char) : List Char := (id.reverse.takeWhile (· ≠ ':')).reverse

/-- A slot with an item of one of the kinds, which are wanted without their namespace. -/
def wanted (targets : List (List Char)) (stack : ItemStack) : Bool :=
  stack.present && bareItemId stack.kind ∈ targets.map bareItemId

def matchingSlots (slots : List ItemStack) (containerLen : ℕ) (targets : List (List Char)) :
    List ℕ :=
  (List.range containerLen).filter fun slot => slots[slot]?.any (wanted targets)

def itemText (stack : ItemStack) : List Char :=
  (stack.customName.getD "").toList ++ [' '] ++
    [' '].intercalate ((stack.lore.getD []).map String.toList)

def findSpawnerSellSlot (slots : List ItemStack) (containerLen : ℕ) (stock : List (List Char)) :
    Option ℕ :=
  (List.range containerLen).find? fun slot => slots[slot]?.any fun stack =>
    stack.present && bareItemId stack.kind ∉ stock.map bareItemId &&
      spawnerSellKeywords.any (contains (lower (itemText stack)))

/-- The stage to work on once the container is open. -/
def SpawnerProgress.normalize (dropItems : List (List Char)) (p : SpawnerProgress) :
    SpawnerProgress :=
  if p.stage = .waitMenu then
    { p with
      stage := if dropItems = [] then .selling else .dropping
      lastCount := none
      stalls := 0 }
  else p

/-- The progress after a count of the matching stacks. -/
def SpawnerProgress.counted (count : ℕ) (p : SpawnerProgress) : SpawnerProgress :=
  { p with
    stalls := if p.lastCount.all (count < ·) then 0 else p.stalls
    lastCount := some count }

def SpawnerProgress.stepped (now : ℚ) (p : SpawnerProgress) : SpawnerProgress :=
  { p with stalls := p.stalls + 1, steps := p.steps + 1, nextAt := now + spawnerStepDelay }

def SpawnerProgress.begin (now : ℚ) : SpawnerProgress where
  menuDeadline := now + 2
  runDeadline := now + 90
  steps := 0
  stage := .waitMenu
  nextAt := now
  lastCount := none
  stalls := 0
  buttonMisses := 0
  dropped := 0
  sold := 0

/-! ### Slots of the multipliers -/

def hasMultiplierTooltip (slots : List ItemStack) : Bool :=
  (slots.take 9).any fun stack =>
    (tooltip (itemTooltip stack.toItemStack).1 (itemTooltip stack.toItemStack).2).isSome

def multiplierMenuTitle (title : List Char) : Bool :=
  (((splitWhitespace (plainText title)).flatten).map Char.toLower) = "sellmulti".toList

/-- The entries of the menu, and whether it is the one that was asked for. -/
def inspectMultipliers (menuId : Option ℤ) (inventory : Inventory) :
    Option (List SellMultiplier) × Bool :=
  let associated := decide (some inventory.id = menuId) && inventory.id ≠ 0
  let slots :=
    if associated then (inventory.containerMenu.filter (·.generic9)).map (·.slots) else none
  (slots.bind fun slots => readTopRow (slots.map (·.toItemStack)),
    associated && (multiplierMenuTitle (inventory.containerMenuTitle.getD []) ||
      slots.any hasMultiplierTooltip))

/-! ### The automation -/

structure BehaviorState where
  config : BehaviorConfig
  nextAutosellAt : ℚ
  nextAutosellClickAt : ℚ
  restartSellPause : Option (ℚ × ℚ)
  manualChatQueue : List ManualTask := []
  commandBudget : CommandBudget
  autosellPhase : AutoSellPhase := .idle
  spawned : Bool := false
  awaitingRespawnPosition : Bool := false
  transitionRecoveryAt : Option ℚ := none
  automationReadyAt : ℚ
  manualMenuGuardUntil : Option ℚ := none
  manualMenuId : Option ℤ := none
  manualPriorityUntil : Option ℚ := none
  cancelledSellUntil : Option ℚ := none
  lastSellRequestAt : Option ℚ := none
  sellMenu : Option (ℤ × List Char) := none
  taskQueue : List ForegroundTask := []
  activeTask : Option ActiveTask := none
  outbox : List (ℚ × Action) := []

namespace BehaviorState

def pauseBetween (now : ℚ) (afterMs resumeMs : ℕ) : Option (ℚ × ℚ) :=
  if 0 < resumeMs then some (now + afterMs / 1000, now + resumeMs / 1000) else none

def new (now : ℚ) (config : BehaviorConfig) (autosellPauseAfterMs autosellResumeAfterMs : ℕ) :
    BehaviorState where
  config := config
  nextAutosellAt := now
  nextAutosellClickAt := now
  restartSellPause := pauseBetween now autosellPauseAfterMs autosellResumeAfterMs
  commandBudget := .new now
  automationReadyAt := now

def act (now : ℚ) (action : Action) (s : BehaviorState) : BehaviorState :=
  { s with outbox := s.outbox ++ [(now, action)] }

def updateConfig (now : ℚ) (config : BehaviorConfig) (s : BehaviorState) : BehaviorState :=
  let changed := s.config.autosellEnabled != config.autosellEnabled ||
    s.config.autosellIntervalSeconds != config.autosellIntervalSeconds ||
    s.config.autosellCommand != config.autosellCommand
  { s with
    config := config
    nextAutosellAt :=
      if changed && config.autosellEnabled then max s.automationReadyAt now else s.nextAutosellAt }

def enqueueChat (text : List Char) (s : BehaviorState) : BehaviorState :=
  if trim text = [] then s
  else { s with manualChatQueue := s.manualChatQueue ++ [.chat (trim text)] }

def enqueueSellMultipliers (s : BehaviorState) : BehaviorState :=
  { s with manualChatQueue := s.manualChatQueue ++ [.sellMultipliers] }

def enqueueCleanSpawner (s : BehaviorState) : BehaviorState :=
  let alreadyPending := match s.activeTask with
    | some (.cleanSpawner _) => true
    | _ => !s.taskQueue.isEmpty
  if alreadyPending then s else { s with taskQueue := s.taskQueue ++ [.cleanSpawner] }

def pauseAutosell (now : ℚ) (afterMs resumeMs : ℕ) (s : BehaviorState) : BehaviorState :=
  { s with restartSellPause := pauseBetween now afterMs resumeMs }

def sellPaused (now : ℚ) (s : BehaviorState) : Bool :=
  s.restartSellPause.any fun (start, resume) => start ≤ now && now < resume

def foregroundBusy (s : BehaviorState) : Bool := s.activeTask.isSome || !s.taskQueue.isEmpty

def postponeAutomationUntil (time : ℚ) (s : BehaviorState) : BehaviorState :=
  { s with
    automationReadyAt := max s.automationReadyAt time
    nextAutosellAt := max s.nextAutosellAt time }

/-- `is_some_and(|at| now < at)` -/
def pending (now : ℚ) (deadline : Option ℚ) : Bool := deadline.any (now < ·)

/-! ### Menus -/

def ownsSellMenu (bot : Client) (s : BehaviorState) : Bool :=
  bot.inventory.any fun inventory =>
    inventory.id ≠ 0 && inventory.containerMenuTitle.any fun current =>
      isSellMenuTitle current || s.sellMenu = some (inventory.id, current)

def closeOpenMenu (bot : Client) (now : ℚ) (s : BehaviorState) : BehaviorState :=
  if bot.inventory.any (·.id ≠ 0) then s.act now .close else s

def closeSellMenu (bot : Client) (now : ℚ) (s : BehaviorState) : BehaviorState :=
  if s.ownsSellMenu bot then s.closeOpenMenu bot now else s

def closeCancelledSellMenu (bot : Client) (now : ℚ) (s : BehaviorState) : BehaviorState :=
  if pending now s.cancelledSellUntil && s.ownsSellMenu bot then s.closeSellMenu bot now else s

def manualMenuPending (bot : Client) (now : ℚ) (s : BehaviorState) : Bool :=
  pending now s.manualPriorityUntil || pending now s.manualMenuGuardUntil ||
    s.manualMenuId.any fun id => bot.inventory.any fun inventory =>
      inventory.id = id && !inventory.containerMenuTitle.any isSellMenuTitle

def playerItemCount (bot : Client) : ℕ :=
  match bot.menu with
  | none => 0
  | some menu =>
      (((menu.slots.take (menu.playerEnd + 1)).drop menu.playerStart).filter (·.present)).foldl
        (fun (sum : ℕ) (stack : ItemStack) => sum + stack.count.toNat) 0

/-! ### Manual commands -/

def resetInteractions (s : BehaviorState) : BehaviorState :=
  { s with
    autosellPhase := .idle
    activeTask := none
    manualMenuGuardUntil := none
    manualMenuId := none
    lastSellRequestAt := none
    sellMenu := none }

def guardAfterChat (now : ℚ) (teleporting : Bool) (s : BehaviorState) : BehaviorState :=
  s.postponeAutomationUntil (now + if teleporting then 3 / 4 else 1 / 10)

/-- What a manual command does before it is sent: it takes the interface over. -/
def interruptForCommand (bot : Client) (now : ℚ) (text : List Char) (s : BehaviorState) :
    BehaviorState :=
  let manualSell := decide (trim text = trim s.config.autosellCommand)
  let cancelled :=
    if manualSell then none
    else if s.lastSellRequestAt.isSome || !s.autosellPhase.isIdle || s.ownsSellMenu bot then
      some (now + 10)
    else s.cancelledSellUntil
  resetInteractions (closeOpenMenu bot now
    { s with cancelledSellUntil := cancelled, manualPriorityUntil := some (now + 5) })

/-- What follows a manual command that was sent. -/
def commandSent (now : ℚ) (task : ManualTask) (s : BehaviorState) : BehaviorState :=
  let text := task.text
  let s := guardAfterChat now (isTeleportCommand text)
    { s with commandBudget := s.commandBudget.record }
  let s := { s with
    manualMenuGuardUntil := if text.head? = some '/' then some (now + 5) else none }
  match task with
  | .chat _ => s
  | .sellMultipliers =>
      { s with
        manualPriorityUntil := none
        manualMenuGuardUntil := none
        activeTask := some (.sellMultipliers ⟨now + 10, none, now⟩) }

/-- Whether the packet of the command can be made is `sent`. -/
def tickManualChat (bot : Client) (sent : Bool) (now : ℚ) (s : BehaviorState) :
    BehaviorState × Bool :=
  if !bot.inGameState then (s, false)
  else
    let (budget, ready) := s.commandBudget.ready now
    let s := { s with commandBudget := budget }
    if !ready then (s, false)
    else
      match s.manualChatQueue with
      | [] => (s, false)
      | task :: queue =>
          let s := interruptForCommand bot now (task.text)
            { s with manualChatQueue := queue }
          let s := s.act now (.manual task sent)
          if sent then (s.commandSent now task, true)
          else ({ s with manualChatQueue := task :: s.manualChatQueue }, false)

/-! ### Transitions -/

def interruptForTransition (bot : Client) (now : ℚ) (s : BehaviorState) : BehaviorState :=
  resetInteractions
    (if s.activeTask.isSome then s.closeOpenMenu bot now else s.closeSellMenu bot now)

def onLogin (bot : Client) (now : ℚ) (s : BehaviorState) : BehaviorState :=
  { s.interruptForTransition bot now with
    spawned := false
    awaitingRespawnPosition := true
    transitionRecoveryAt := some (now + 5) }

def onRespawn (bot : Client) (now : ℚ) (s : BehaviorState) : BehaviorState :=
  { s.onLogin bot now with awaitingRespawnPosition := true }

/-- The world is there after a position, unless its chunk is not. -/
def settlePosition (bot : Client) (now : ℚ) (s : BehaviorState) : Option BehaviorState :=
  if s.awaitingRespawnPosition then
    if !bot.inLoadedChunk then none
    else some (postponeAutomationUntil (now + 2)
      { s with spawned := true, awaitingRespawnPosition := false, transitionRecoveryAt := none })
  else some s

def onPositionSync (bot : Client) (now : ℚ) (s : BehaviorState) : BehaviorState :=
  match s.settlePosition bot now with
  | none => s
  | some s =>
      if !s.spawned then s
      else
        let s := (s.interruptForTransition bot now).postponeAutomationUntil (now + 1 / 10)
        { s with nextAutosellAt := s.automationReadyAt }

def onSpawn (bot : Client) (now : ℚ) (s : BehaviorState) : BehaviorState :=
  { s.interruptForTransition bot now with
    spawned := true
    awaitingRespawnPosition := false
    transitionRecoveryAt := none
    automationReadyAt := now + 2
    nextAutosellAt := now + 2 }

def recoverLoadedWorld (bot : Client) (now : ℚ) (s : BehaviorState) : BehaviorState :=
  if !s.spawned && s.transitionRecoveryAt.any (· ≤ now) && bot.inGameState && bot.inLoadedChunk &&
      bot.inventory.isSome then
    s.onSpawn bot now
  else s

/-! ### The spawner -/

/-- Stacks thrown out of some slots. -/
def throwAll (now : ℚ) (slots : List ℕ) (s : BehaviorState) : BehaviorState :=
  { s with outbox := s.outbox ++ slots.map fun slot => (now, .throwAll slot) }

def cleanSpawnerLegacy (slots : List ItemStack) (containerLen : ℕ) (now : ℚ)
    (p : SpawnerProgress) (s : BehaviorState) : BehaviorState :=
  if 2 < containerLen ∧ slots[2]?.any (!·.present) then { s.act now .close with activeTask := none }
  else if now < p.nextAt then { s with activeTask := some (.cleanSpawner p) }
  else
    let present := (List.range containerLen).filter fun slot => slots[slot]?.any (·.present)
    let fewer := p.lastCount.all (present.length < ·)
    if !fewer && p.stalls ≥ spawnerMaxStalls then { s.act now .close with activeTask := none }
    else
      { s.throwAll now present with
        activeTask := some (.cleanSpawner { p with
          stage := .dropping
          lastCount := some present.length
          stalls := (if fewer then 0 else p.stalls) + 1
          steps := p.steps + 1
          nextAt := now + spawnerStepDelay
          dropped := p.dropped + present.length }) }

/-- All matching stacks but the last ones are thrown out. -/
def dropStep (matching : List ℕ) (now : ℚ) (p : SpawnerProgress) (s : BehaviorState) :
    BehaviorState :=
  let thrown := matching.take (matching.length - spawnerKeepStacks)
  { s.throwAll now thrown with
    activeTask := some (.cleanSpawner
      (SpawnerProgress.stepped now { p with dropped := p.dropped + thrown.length })) }

def sellStep (slots : List ItemStack) (containerLen : ℕ) (now : ℚ) (p : SpawnerProgress)
    (s : BehaviorState) : BehaviorState :=
  match findSpawnerSellSlot slots containerLen
      (s.config.spawnerDropItems ++ s.config.spawnerSellItems) with
  | none =>
      if p.buttonMisses + 1 ≥ spawnerMaxStalls then { s.act now .close with activeTask := none }
      else
        { s with
          activeTask := some (.cleanSpawner { p with
            buttonMisses := p.buttonMisses + 1
            steps := p.steps + 1
            nextAt := now + spawnerStepDelay }) }
  | some slot =>
      { s.act now (.pickupLeft slot) with
        activeTask := some (.cleanSpawner
          (SpawnerProgress.stepped now { p with buttonMisses := 0, sold := p.sold + 1 })) }

/-- A stage that has left few enough stacks, or that makes no progress. -/
def finishStage (now : ℚ) (p : SpawnerProgress) (s : BehaviorState) : BehaviorState :=
  if p.stage = .dropping then
    { s with
      activeTask := some (.cleanSpawner { p with
        stage := .selling
        nextAt := now + spawnerStepDelay
        lastCount := none
        stalls := 0
        buttonMisses := 0 }) }
  else { s.act now .close with activeTask := none }

/-- One step on the slots of an open container. -/
def cleanSlots (slots : List ItemStack) (containerLen : ℕ) (now : ℚ) (p : SpawnerProgress)
    (s : BehaviorState) : BehaviorState :=
  let p := p.normalize s.config.spawnerDropItems
  if now < p.nextAt then { s with activeTask := some (.cleanSpawner p) }
  else
    let targets :=
      if p.stage = .dropping then s.config.spawnerDropItems else s.config.spawnerSellItems
    let matching := matchingSlots slots containerLen targets
    let p := p.counted matching.length
    if matching.length ≤ spawnerKeepStacks ∨ p.stalls ≥ spawnerMaxStalls then s.finishStage now p
    else if p.stage = .dropping then s.dropStep matching now p
    else s.sellStep slots containerLen now p

def advanceCleanSpawner (bot : Client) (now : ℚ) (p : SpawnerProgress) (s : BehaviorState) :
    BehaviorState :=
  match bot.inventory with
  | none => s
  | some inventory =>
      if inventory.id = 0 then
        if p.menuDeadline ≤ now then { s with activeTask := none } else s
      else if p.runDeadline ≤ now ∨ p.steps ≥ spawnerMaxSteps then
        { s.act now .close with activeTask := none }
      else
        match inventory.containerMenu with
        | none => s
        | some menu =>
            let containerLen := menu.slots.length - 36
            if containerLen = 0 then s
            else if trim s.config.spawnerType = [] then
              s.cleanSpawnerLegacy menu.slots containerLen now p
            else s.cleanSlots menu.slots containerLen now p

/-! ### The scan of the multipliers -/

def advanceSellMultipliers (bot : Client) (now : ℚ) (progress : MultiplierProgress)
    (s : BehaviorState) : BehaviorState :=
  if now < progress.nextCheck && now < progress.deadline then s
  else
    let s := match s.activeTask with
      | some (.sellMultipliers current) =>
          { s with activeTask := some (.sellMultipliers { current with nextCheck := now + 1 / 20 }) }
      | _ => s
    let (entries, ownsMenu) :=
      (bot.inventory.map (inspectMultipliers progress.menuId)).getD (none, false)
    match entries with
    | some entries =>
        { (s.closeOpenMenu bot now).act now (.sellMultipliers entries) with
          activeTask := none
          nextAutosellAt := max s.nextAutosellAt (now + 1 / 10) }
    | none =>
        if progress.deadline ≤ now then
          { (if ownsMenu then s.closeOpenMenu bot now else s) with activeTask := none }
        else s

def advanceActiveTask (bot : Client) (now : ℚ) (s : BehaviorState) : BehaviorState :=
  match s.activeTask with
  | some (.cleanSpawner progress) => s.advanceCleanSpawner bot now progress
  | some (.sellMultipliers progress) => s.advanceSellMultipliers bot now progress
  | none => s

def inventoryIsMutable (bot : Client) : Bool := bot.inventory.any (·.id = 0)

/-- The next queued task, unless it has to wait. -/
def startTask (bot : Client) (now : ℚ) (s : BehaviorState) : BehaviorState :=
  match s.taskQueue with
  | [] => s
  | .cleanSpawner :: queue =>
      if s.sellPaused now || !inventoryIsMutable bot then s
      else
        let s := { s with taskQueue := queue }
        match bot.spawnerInReach with
        | none => s
        | some pos =>
            { s.act now (.blockInteract pos) with
              activeTask := some (.cleanSpawner (SpawnerProgress.begin now)) }

def tickForeground (bot : Client) (now : ℚ) (s : BehaviorState) : BehaviorState × Bool :=
  if s.manualMenuPending bot now then (s, false)
  else
    let advanced := s.advanceActiveTask bot now
    if advanced.activeTask.isNone && advanced.autosellPhase.isIdle && !advanced.taskQueue.isEmpty then
      (advanced.startTask bot now, true)
    else (advanced, s.activeTask.isSome)

/-! ### Selling -/

def autosellMinCommandInterval : ℚ := 3 / 2

def interval (s : BehaviorState) : ℚ :=
  max (max s.config.autosellIntervalSeconds (1 / 20)) autosellMinCommandInterval

def presentSlot (menu : Menu) (slot : ℕ) : Bool := menu.slots[slot]?.any (·.present)

def advanceAutosellClick (bot : Client) (now : ℚ) (s : BehaviorState) : BehaviorState :=
  match s.autosellPhase with
  | .selling menuId session nextSlot endSlot =>
      if bot.menuSession ≠ session ∨ s.ownsSellMenu bot = false then
        { s with autosellPhase := .idle }
      else
        match bot.inventory.bind fun inventory => inventory.containerMenu.map (inventory.id, ·) with
        | none => s
        | some (id, menu) =>
            if id ≠ menuId ∨ menu.playerEnd ≠ endSlot then { s with autosellPhase := .idle }
            else
              match ((List.range (endSlot + 1)).drop nextSlot).find? (presentSlot menu) with
              | none => { s with autosellPhase := .closing (now + 1 / 20) menuId session }
              | some slot =>
                  if now < s.nextAutosellClickAt then s
                  else
                    let hasMore :=
                      ((List.range (endSlot + 1)).drop (slot + 1)).any (presentSlot menu)
                    { s.act now (.shiftClick menuId slot) with
                      nextAutosellClickAt := now + 1 / 10
                      autosellPhase :=
                        if hasMore then .selling menuId session (slot + 1) endSlot
                        else .closing (now + 1 / 20) menuId session }
  | _ => s

/-- The sell menu that a request waits for, once its slots can be sold. -/
def readySellMenu (bot : Client) (contentReceived : Option (ℤ × ℕ)) (s : BehaviorState) :
    Option (ℤ × Menu) :=
  bot.inventory.bind fun inventory =>
    if inventory.id ≠ 0 && s.ownsSellMenu bot then
      inventory.containerMenu.bind fun menu =>
        let hasPlayerItems :=
          ((List.range (menu.playerEnd + 1)).drop menu.playerStart).any (presentSlot menu)
        let completeContent := contentReceived.any fun (packetId, count) =>
          packetId = inventory.id && menu.slots.length ≤ count
        if 0 < menu.playerStart && (completeContent || hasPlayerItems) then
          some (inventory.id, menu)
        else none
    else none

/-- A new sell command, if nothing stands against it. -/
def requestSale (bot : Client) (now : ℚ) (s : BehaviorState) : BehaviorState :=
  if s.foregroundBusy || s.manualMenuPending bot now then s
  else if now < s.nextAutosellAt then s
  else
    let (budget, ready) := s.commandBudget.ready now
    let s := { s with commandBudget := budget }
    if !ready then s
    else if bot.inventory.any (·.id ≠ 0) then s
    else
      let command := trim s.config.autosellCommand
      let command := if command = [] then "/sell".toList else command
      let s := { s with
        nextAutosellAt := now + s.interval
        lastSellRequestAt := some now
        cancelledSellUntil := none }
      let s := s.act now (.chat command)
      { s with
        commandBudget := s.commandBudget.record
        autosellPhase := .waitingForMenu now (playerItemCount bot = 0) none }

def awaitMenu (bot : Client) (now since : ℚ) (startedEmpty : Bool)
    (contentReceived : Option (ℤ × ℕ)) (s : BehaviorState) : BehaviorState :=
  match s.readySellMenu bot contentReceived with
  | some (id, menu) =>
      advanceAutosellClick bot now
        { s with autosellPhase := .selling id bot.menuSession menu.playerStart menu.playerEnd }
  | none =>
      if 1 / 2 ≤ max (now - since) 0 then
        let s := { s.closeSellMenu bot now with autosellPhase := .idle }
        let retryAt := max (now + 1 / 10) (since + s.interval)
        if startedEmpty && 0 < playerItemCount bot then { s with nextAutosellAt := retryAt }
        else { s with nextAutosellAt := max s.nextAutosellAt retryAt }
      else s

def tickAutosell (bot : Client) (now : ℚ) (s : BehaviorState) : BehaviorState :=
  if !s.config.autosellEnabled || s.sellPaused now then
    { (if s.autosellPhase.isIdle then s else s.closeSellMenu bot now) with autosellPhase := .idle }
  else
    match s.autosellPhase with
    | .idle => s.requestSale bot now
    | .waitingForMenu since startedEmpty contentReceived =>
        s.awaitMenu bot now since startedEmpty contentReceived
    | .selling .. => s.advanceAutosellClick bot now
    | .closing closeAt menuId session =>
        if now < closeAt then s
        else
          let s :=
            if bot.menuSession = session && bot.inventory.any (·.id = menuId) then
              s.closeSellMenu bot now
            else s
          { s with autosellPhase := .idle, lastSellRequestAt := none }

def recoverOrphanedAutosellMenu (bot : Client) (now : ℚ) (s : BehaviorState) :
    BehaviorState × Bool :=
  if !s.config.autosellEnabled || !s.autosellPhase.isIdle || s.activeTask.isSome ||
      s.manualMenuPending bot now || !s.ownsSellMenu bot then
    (s, false)
  else if bot.inventory.all (·.id = 0) then (s, false)
  else if 0 < playerItemCount bot && !s.sellPaused now then
    (tickAutosell bot now
      { s with
        autosellPhase := .waitingForMenu now false none
        nextAutosellAt := now + s.interval }, true)
  else
    ({ s.act now .close with nextAutosellAt := max s.nextAutosellAt (now + 1 / 10) }, true)

/-! ### Entry points -/

/-- The automation, unless a manual command ran in this tick. -/
def automate (bot : Tick) (now : ℚ) (s : BehaviorState) : BehaviorState :=
  let (s, recovered) := s.recoverOrphanedAutosellMenu bot.orphan now
  if recovered then s
  else
    let (s, ran) := s.tickForeground bot.foreground now
    if ran then s else s.tickAutosell bot.sale now

/-- Menu interactions end where a pause begins. -/
def interruptForPause (bot : Client) (now : ℚ) (s : BehaviorState) : BehaviorState :=
  if s.sellPaused now && (!s.autosellPhase.isIdle || s.activeTask.isSome) then
    s.interruptForTransition bot now
  else s

def onTick (bot : Tick) (now : ℚ) (s : BehaviorState) : BehaviorState :=
  let s := s.recoverLoadedWorld bot.recovery now
  let s := s.interruptForPause bot.pause now
  let s := s.closeCancelledSellMenu bot.manual now
  let (s, manualRan) := s.tickManualChat bot.manual bot.sent now
  if s.spawned && s.automationReadyAt ≤ now && bot.orphan.inGameState && !manualRan then
    s.automate bot now
  else s

def onControlEvent (bot multipliers : Client) (sent : Bool) (now : ℚ) (s : BehaviorState) :
    BehaviorState :=
  let s := s.closeCancelledSellMenu bot now
  let s := (s.tickManualChat bot sent now).1
  match s.activeTask with
  | some (.sellMultipliers progress) => s.advanceSellMultipliers multipliers now progress
  | _ => s

/-- A screen that is opened again, or replaced, invalidates an old slot cursor. -/
def screenReplaced (s : BehaviorState) : BehaviorState :=
  match s.autosellPhase with
  | .selling .. | .closing .. =>
      { s with
        autosellPhase := .idle
        lastSellRequestAt := none
        sellMenu := none
        manualMenuId := none }
  | _ => { s with manualMenuId := none }

def onMenuOpen (id : ℤ) (title : List Char) (now : ℚ) (s : BehaviorState) : BehaviorState :=
  let s := s.screenReplaced
  match s.activeTask with
  | some (.sellMultipliers progress) =>
      { s with
        activeTask := some (.sellMultipliers { progress with menuId := some id, nextCheck := now }) }
  | activeTask =>
      if pending now s.manualMenuGuardUntil then { s with manualMenuId := some id }
      else if activeTask.isNone && (isSellMenuTitle title ||
          s.lastSellRequestAt.any fun time => max (now - time) 0 ≤ 10) then
        { s with sellMenu := some (id, title) }
      else s

def onMultiplierSlot (id : ℤ) (now : ℚ) (s : BehaviorState) : BehaviorState :=
  match s.activeTask with
  | some (.sellMultipliers progress) =>
      if progress.menuId = some id then
        { s with activeTask := some (.sellMultipliers { progress with nextCheck := now }) }
      else s
  | _ => s

def onContainerContent (bot : Client) (containerId : ℤ) (items : ℕ) (now : ℚ)
    (s : BehaviorState) : BehaviorState :=
  if !bot.inventory.any (·.id = containerId) || containerId = 0 then s
  else
    let s := s.onMultiplierSlot containerId now
    match s.autosellPhase with
    | .waitingForMenu since startedEmpty _ =>
        { s with
          autosellPhase := .waitingForMenu since startedEmpty (some (containerId, items)) }
    | _ => s

def onChat (bot : Client) (message : List Char) (now : ℚ) (s : BehaviorState) : BehaviorState :=
  if isInventoryBusyMessage message then
    let s :=
      if !s.autosellPhase.isIdle || s.lastSellRequestAt.isSome then s.closeSellMenu bot now else s
    postponeAutomationUntil (now + 1)
      { s with autosellPhase := .idle, lastSellRequestAt := none }
  else s

end BehaviorState

inductive Event
  | tick (bot : Tick)
  | controlEvent (bot multipliers : Client) (sent : Bool)
  | login (bot : Client)
  | respawn (bot : Client)
  | spawn (bot : Client)
  | positionSync (bot : Client)
  | menuOpen (id : ℤ) (title : List Char)
  | containerContent (bot : Client) (containerId : ℤ) (items : ℕ)
  | multiplierSlot (id : ℤ)
  | chat (bot : Client) (message : List Char)
  | updateConfig (config : BehaviorConfig)
  | pauseAutosell (afterMs resumeMs : ℕ)
  | enqueueChat (text : List Char)
  | enqueueSellMultipliers
  | enqueueCleanSpawner

def BehaviorState.apply (now : ℚ) (event : Event) (s : BehaviorState) : BehaviorState :=
  match event with
  | .tick bot => s.onTick bot now
  | .controlEvent bot multipliers sent => s.onControlEvent bot multipliers sent now
  | .login bot => s.onLogin bot now
  | .respawn bot => s.onRespawn bot now
  | .spawn bot => s.onSpawn bot now
  | .positionSync bot => s.onPositionSync bot now
  | .menuOpen id title => s.onMenuOpen id title now
  | .containerContent bot id items => s.onContainerContent bot id items now
  | .multiplierSlot id => s.onMultiplierSlot id now
  | .chat bot message => s.onChat bot message now
  | .updateConfig config => s.updateConfig now config
  | .pauseAutosell afterMs resumeMs => s.pauseAutosell now afterMs resumeMs
  | .enqueueChat text => s.enqueueChat text
  | .enqueueSellMultipliers => s.enqueueSellMultipliers
  | .enqueueCleanSpawner => s.enqueueCleanSpawner

/-- A bot and its monotone clock. -/
structure Bot where
  now : ℚ
  state : BehaviorState

def Bot.start (now : ℚ) (config : BehaviorConfig) (pauseAfterMs resumeAfterMs : ℕ) : Bot :=
  ⟨now, .new now config pauseAfterMs resumeAfterMs⟩

/-- Time passes before an event. -/
def step (bot : Bot) (input : ℚ≥0 × Event) : Bot :=
  let now := bot.now + input.1
  ⟨now, bot.state.apply now input.2⟩

end AfkClient.RustBehaviors
