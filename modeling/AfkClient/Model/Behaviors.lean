import AfkClient.Library.Run
import AfkClient.Library.Task
import AfkClient.Model.SellMultipliers
import Mathlib.Data.List.Sort

/-! The automation of one bot: a serialized scheduler for typed commands, sales, menu
tasks, held keys and the return to the remembered home. Methods without an await are
functions on the state; the others are tasks that pause in the calls of the gateway. -/

namespace AfkClient

open Re Text

/-! ### Data -/

structure BehaviorConfig where
  crouchEnabled : Option Bool := none
  autoButton : Option AutoButton := none
  autosellEnabled : Option Bool := none
  autosellIntervalSeconds : Option ℚ := none
  autosellCommand : Option String := none
  spawnerType : Option String := none
  spawnerDropItems : Option (List String) := none
  spawnerSellItems : Option (List String) := none
  autoReturnHome : Option Bool := none
  recoveryHome : Option String := none
  deriving DecidableEq, Repr

structure GameSlot where
  slot : ℕ
  itemId : String
  count : ℕ
  displayName : String
  tooltipLines : List String
  deriving DecidableEq, Repr

structure GameInventory where
  menuId : String
  title : String := ""
  containerSlots : List ℕ := []
  playerSlots : List ℕ := []
  slots : List GameSlot := []
  deriving DecidableEq, Repr

inductive ClickAction where
  | transfer | drop | left
  deriving DecidableEq, Repr

/-- The calls a bot makes through its gateway. -/
inductive GameCall where
  | held (config : BehaviorConfig)
  | sneak
  | chat (text : String)
  | inventory
  | click (menu : String) (slot : ℕ) (action : ClickAction)
  | transferAll (menu : String)
  | close (menu : String)
  | openSpawner (crouch : Bool)
  | suspendSell (durationMs : ℤ)
  | recoveringHome (pending : Bool)
  | rememberHome (home : String)
  deriving DecidableEq, Repr

abbrev GameCall.Reply : GameCall → Type
  | .inventory => GameInventory
  | .openSpawner _ => Bool
  | _ => Unit

/-- An error; `aborted` is the status by which a service refuses an outdated menu. -/
structure Failure where
  message : String
  aborted : Bool := false
  deriving DecidableEq, Repr

/-- Which of its optional methods a gateway has. -/
structure GameGateway where
  nativeAutosell : Bool := false
  suspendSell : Bool := false
  recoveringHome : Bool := false
  rememberHome : Bool := false
  transferAll : Bool := false
  deriving DecidableEq, Repr

inductive CommandType where
  | chat | cleanSpawner | readSellMultipliers
  deriving DecidableEq, Repr

def CommandType.name : CommandType → String
  | .chat => "chat"
  | .cleanSpawner => "clean_spawner"
  | .readSellMultipliers => "read_sell_multipliers"

structure Command where
  type : CommandType
  text : Option String := none
  deriving DecidableEq, Repr

/-- A transfer of a sale that the server has not confirmed yet. -/
structure Transfer where
  slot : GameSlot
  batch : Option (List GameSlot) := none
  sentAt : ℤ
  confirmed : Bool := false
  deriving DecidableEq, Repr

/-- A sale in progress. Objects are told apart by `id`; `menu` is empty until one is bound. -/
structure Sell where
  id : ℕ
  requested : ℤ
  opened : Option ℤ := none
  menu : String := ""
  targets : Option (List ℕ) := none
  pending : Option Transfer := none
  deriving DecidableEq, Repr

inductive ForegroundKind where
  | multipliers | spawner
  deriving DecidableEq, Repr

inductive SpawnerPhase where
  | drop | sell
  deriving DecidableEq, Repr

/-- A click of a menu task that the server has not confirmed yet. -/
structure Click where
  fingerprint : String
  slot : Option GameSlot := none
  sentAt : ℤ
  confirmed : Bool := false
  deriving DecidableEq, Repr

/-- A menu task; `menu` is empty until one is bound. -/
structure Foreground where
  id : ℕ
  kind : ForegroundKind
  deadline : ℤ
  opened : Option ℤ := none
  menu : String := ""
  previousMenu : String
  phase : SpawnerPhase := .drop
  next : ℤ
  pending : Option Click := none
  deriving DecidableEq, Repr

structure PendingHome where
  name : String
  expires : ℤ
  deriving DecidableEq, Repr

structure QueuedChat where
  text : String
  queuedAt : ℤ
  deriving DecidableEq, Repr

structure Behaviors where
  cfg : BehaviorConfig
  game : GameGateway
  /-- The Unicode classes `\p{L}` and `\p{N}`. -/
  letterOrNumber : Char → Bool := Char.isAlphanum
  online : Bool := false
  readyAt : ℤ := 0
  nextSell : ℚ := 0
  pauseStart : ℤ := 0
  pauseEnd : ℤ := 0
  manualUntil : ℤ := 0
  nextSneak : ℤ := 0
  sneakChecks : List ℤ := []
  commands : List Command := []
  sell : Option Sell := none
  foreground : Option Foreground := none
  commandCredits : ℤ := 3
  creditAt : ℤ := 0
  lastFailure : Option ℤ := none
  generation : ℕ := 0
  inventoryBlockedUntil : ℤ := 0
  lastQueuedChat : Option QueuedChat := none
  lastQueueWarning : Option ℤ := none
  home : String := ""
  pendingHome : Option PendingHome := none
  saveHome : Option String := none
  returningHome : Bool := false
  homeDue : ℤ := 0
  homeAttempts : ℕ := 0
  lastHomeWarning : Option ℤ := none
  homeGatePending : Option Bool := none
  /-- The next unused identity of a sale or a menu task. -/
  nextId : ℕ := 0
  /-- The clock reading of `this.clock()`. -/
  now : ℤ := 0
  /-- What was emitted, latest first. -/
  outbox : List BotEvent := []

/-- `/^[\p{L}\p{N}_.-]{1,64}$/u` -/
def validHome (letterOrNumber : Char → Bool) (home : String) : Bool :=
  home.toList ≠ [] && home.toList.length ≤ 64
    && home.toList.all fun c => letterOrNumber c || c == '_' || c == '.' || c == '-'

def plain (text : String) : List Char := trim (tooltipText text)

def sellTitle (text : String) : Bool :=
  (seqs [bos, oneOf [ilit "items verkaufen", ilit "sell"], eos]).test (plain text)

/-! ### Server messages -/

def serverTag : Re := oneOf [ilit "[HugoSMP]", ilit "<HugoSMP>"]

def teleportSuccessRe : Re :=
  seqs [bos, opt serverTag, many space,
    oneOf [seqs [ilit "Du wurdest zu deinem Home ", some1 dot, ilit " teleportiert!"],
      seq (some1 (set (· ≠ ':'))) (ilit " hat deine Teleportations-Anfrage angenommen!"),
      seqs [ilit "Du hast die Teleportations-Anfrage von ", some1 dot, ilit " angenommen!"]], eos]

def teleportSuccess (text : String) : Bool := teleportSuccessRe.test (plain text)

def arrivedRe : Re :=
  seqs [bos, opt serverTag, many space, ilit "Du wurdest zu deinem Home ", group 1 (some1 dot),
    ilit " teleportiert!", eos]

def payoutLine : Re := seqs [bos, opt serverTag, many space, lit "+$"]

def inventoryLocked : Re :=
  seqs [bos, opt (seq (ilit "[HugoSMP]") (many space)),
    ilit "Du kannst dies nicht tun, weil dein Inventar gerade gespeichert oder geladen wird",
    opt (set (· ∈ ['.', '!'])), eos]

namespace Behaviors

/-! ### Methods without an await -/

def emit (s : Behaviors) (event : BotEvent) : Behaviors := { s with outbox := event :: s.outbox }

def checkSneak (s : Behaviors) : Behaviors :=
  if s.cfg.crouchEnabled == some true then { s with nextSneak := 0 } else s

def scheduleSneak (s : Behaviors) : Behaviors :=
  let due := s.now + 3000
  let checks :=
    if s.sneakChecks.getLast?.all fun last => 50 ≤ due - last then s.sneakChecks ++ [due]
    else s.sneakChecks
  { s with sneakChecks := if 64 < checks.length then checks.tail else checks }

def resetTasks (s : Behaviors) : Behaviors :=
  { s with generation := s.generation + 1, sell := none, foreground := none }

def joining (s : Behaviors) : Behaviors := { s with online := false }.resetTasks

def transition (s : Behaviors) : Behaviors :=
  let s := s.resetTasks
  { s with readyAt := s.now + 2000, nextSell := (s.now + 2000 : ℤ), nextSneak := 0 }.scheduleSneak

def pause (s : Behaviors) (afterMs resumeMs : ℤ) : Behaviors :=
  if resumeMs = 0 then { s with pauseStart := 0, pauseEnd := 0 }
  else { s with pauseStart := s.now + afterMs, pauseEnd := s.now + resumeMs }

/-- `now - last >= interval`, where no `last` means minus infinity. -/
def elapsed (now : ℤ) (last : Option ℤ) (interval : ℤ) : Bool := last.all (interval ≤ now - ·)

def enqueue (s : Behaviors) (type : CommandType) (text : Option String) : Behaviors :=
  let chatText := if type = .chat then text.filter (· ≠ "") else none
  if s.commands.any fun command => command.type = type && command.text = text then s
  else if chatText.isSome && s.lastQueuedChat.any fun last =>
      some last.text = text && s.now - last.queuedAt < 2000 then s
  else if 32 ≤ s.commands.length then
    if elapsed s.now s.lastQueueWarning 30_000 then
      { s with lastQueueWarning := some s.now }.emit
        (.warning "Befehlswarteschlange voll; weitere Befehle vorerst verworfen")
    else s
  else
    { s with
      lastQueuedChat := (chatText.map (⟨·, s.now⟩)).or s.lastQueuedChat
      commands := s.commands ++ [⟨type, text⟩] }

/-- The server says that the bot arrived at the home it asked for. -/
def confirmHome (s : Behaviors) (message : String) : Behaviors :=
  match (arrivedRe.capture 1 (plain message)).map String.ofList, s.pendingHome with
  | some arrived, some pending =>
      if s.now ≤ pending.expires ∧ arrived = pending.name then
        { s with
          home := arrived, saveHome := some arrived, pendingHome := none, returningHome := false
          homeGatePending := some false, readyAt := s.now + 2000 }.emit
          (.behaviorLog s!"Home {arrived} bestätigt; Automatisierung wird fortgesetzt")
      else s
  | _, _ => s

/-- A payout confirms the transfer or the click that waits for the server. -/
def confirmPayout (s : Behaviors) : Behaviors :=
  { s with
    sell := s.sell.map fun sale =>
      { sale with pending := sale.pending.map fun p => { p with confirmed := true } }
    foreground := s.foreground.map fun task =>
      if task.kind = .spawner ∧ task.phase = .sell then
        { task with pending := task.pending.map fun p => { p with confirmed := true } }
      else task }

def onChat (s : Behaviors) (sender : Option String) (message : String) : Behaviors :=
  if sender.any fun name => name ≠ "" && toLowerCase name.toList ≠ "hugosmp".toList then s
  else
    let s := if teleportSuccess message then { s.scheduleSneak with nextSneak := 0 } else s
    let s := s.confirmHome message
    -- A hopper can refill the slot before the next snapshot; a payout still confirms it.
    let s :=
      if payoutLine.test (plain message) && (parseSellEarning message).isSome then s.confirmPayout
      else s
    if inventoryLocked.test (plain message) then
      let s := s.resetTasks
      { s with
        inventoryBlockedUntil := s.now + 2000, readyAt := s.now + 2000
        nextSell := (s.now + 2000 : ℤ) }
    else s

def earnCredits (s : Behaviors) (now : ℤ) : Behaviors :=
  let creditAt := if s.creditAt = 0 then now else s.creditAt
  let credits := (now - creditAt) / 1500
  if 0 < credits then
    { s with
      commandCredits := min 3 (s.commandCredits + credits), creditAt := creditAt + credits * 1500 }
  else { s with creditAt := creditAt }

/-- `while (this.sneakChecks.length && this.sneakChecks[0] <= now) ...` -/
def runSneakChecks (s : Behaviors) (now : ℤ) : Behaviors :=
  let rest := s.sneakChecks.dropWhile (· ≤ now)
  let s := if rest.length < s.sneakChecks.length then s.checkSneak else s
  { s with sneakChecks := rest }

def init (config : BehaviorConfig) (game : GameGateway) (letterOrNumber : Char → Bool) :
    Behaviors where
  cfg := config
  game := game
  letterOrNumber := letterOrNumber
  home := (config.recoveryHome.filter (validHome letterOrNumber)).getD ""

/-! ### Tasks -/

abbrev Code (α : Type) := Task Behaviors GameCall GameCall.Reply Failure α

/-- `await` of a call of the gateway. -/
abbrev await (c : GameCall) : Code c.Reply := .perform c

def emitting (event : BotEvent) : Code Unit := .update (·.emit event)

def closeOwned (menu : String) : Code Unit := do
  let inventory ← await .inventory
  .when (inventory.menuId = menu && inventory.containerSlots ≠ []) (await (.close menu))

def cancelSell : Code Unit := do
  let s ← .read
  .update fun s => { s with sell := none }
  match s.sell with
  | some sale => .when (sale.menu ≠ "") (closeOwned sale.menu)
  | none => pure ()

def failSell (reason : String) : Code Unit := do
  cancelSell
  .update fun s =>
    let s := { s with nextSell := s.now }
    if elapsed s.now s.lastFailure 30_000 then
      { s with lastFailure := some s.now }.emit
        (.warning s!"AutoSell: {reason}; versuche es weiter")
    else s

/-- `creditReady`: whether a credit is left at `now`. -/
def creditReady (now : ℤ) : Code Bool := do
  .update (·.earnCredits now)
  let s ← .read
  pure (1 ≤ s.commandCredits)

def dispatch (text : String) (automatic : Bool) : Code Unit :=
  if isBlockedAfkCommand text then do
    emitting (.warning AFK_BLOCK_MESSAGE)
    .fail ⟨"/afk ist gesperrt", false⟩
  else do
    await (.chat text)
    .when (!automatic) (.update fun s => { s with commandCredits := s.commandCredits - 1 })

/-- `await this.game.recoveringHome?.(pending)` -/
def recoveringHome (pending : Bool) : Code Unit := do
  let s ← .read
  .when s.game.recoveringHome (await (.recoveringHome pending))

/-- `configure` up to its first call. -/
def applyConfig (s : Behaviors) (config : BehaviorConfig) : Behaviors :=
  if config.autoReturnHome = some false then
    { s with cfg := config, returningHome := false, homeGatePending := some false }
  else { s with cfg := config }

def sellChanged (cfg config : BehaviorConfig) : Bool :=
  config.autosellEnabled ≠ cfg.autosellEnabled
    || config.autosellIntervalSeconds ≠ cfg.autosellIntervalSeconds
    || config.autosellCommand ≠ cfg.autosellCommand

/-- `configure` behind the held keys. -/
def applySell (config : BehaviorConfig) (changed : Bool) : Code Unit := do
  .when (config.autosellEnabled ≠ some true) cancelSell
  .when changed (.update fun s => { s with nextSell := s.now })

def configure (config : BehaviorConfig) : Code Unit := do
  let s ← .read
  .update (·.applyConfig config)
  await (.held config)
  applySell config (sellChanged s.cfg config)

/-- `spawned` once the held keys are set: it decides whether a return home is owed. -/
def decideReturn (s : Behaviors) : Behaviors :=
  { s with
    returningHome := s.cfg.autoReturnHome ≠ some false && s.home ≠ ""
    homeDue := s.now + 5000, homeAttempts := 0 }

def requestReturn : Code Unit := do
  .update decideReturn
  let s ← .read
  recoveringHome s.returningHome

def spawned : Code Unit := do
  .update fun s => { s with online := true }.transition
  let s ← .read
  await (.held s.cfg)
  requestReturn

/-! #### Typed commands -/

def homeCommand : Re :=
  seqs [bos, ilit "/home", some1 space, group 1 (some1 (set (! isSpace ·))), many space, eos]

/-- The home a command asks for: `text.match(/^\/home\s+(\S+)\s*$/i)?.[1]`. -/
def requestedHome (text : String) : Option String :=
  (homeCommand.capture 1 text.toList).map String.ofList

def navigation (commands : List String) : Re :=
  seqs [bos, lit "/", oneOf (commands.map ilit), oneOf [space, eos]]

def isNavigation (text : String) : Bool :=
  (navigation ["home", "spawn", "hub", "lobby", "warp", "server", "tpaccept", "tpyes"]).test
    text.toList

def isTeleportAnswer (text : String) : Bool := (navigation ["tpaccept", "tpyes"]).test text.toList

/-- The menu a command finds open. Typed commands do without a readable inventory. -/
def openMenu (type : CommandType) : Code GameInventory := do
  let s ← .read
  Task.orCatch
    (fun error => if s.game.nativeAutosell && type = .chat then pure ⟨"", "", [], [], []⟩ else .fail error)
    (await .inventory)

def setForeground (task : ℕ → ℤ → Foreground) : Code Unit :=
  .update fun s => { s with foreground := some (task s.nextId s.now), nextId := s.nextId + 1 }

def readMultipliers (generation : ℕ) (previousMenu : String) : Code Unit := do
  dispatch "/sellmulti" false
  let s ← .read
  .when (s.generation = generation) (setForeground fun id now =>
    { id, kind := .multipliers, deadline := now + 10_000, previousMenu, next := now })

def cleanSpawner (generation : ℕ) (previousMenu : String) : Code Unit := do
  let s ← .read
  let opened ← await (.openSpawner (s.cfg.crouchEnabled = some true))
  if opened then do
    let s ← .read
    .when (s.generation = generation) (setForeground fun id now =>
      { id, kind := .spawner, deadline := now + 60_000, previousMenu, next := now + 400 })
  else emitting (.warning "CleanSpawner: kein erreichbarer Spawner gefunden")

/-- An explicit navigation command takes precedence over the old worksite. -/
def navigate (text : String) : Code Unit := do
  .update fun s => { s with returningHome := false }
  recoveringHome false
  .when (requestedHome text).isNone (.update fun s => { s with home := "", saveHome := some "" })

def typeCommand (text : String) : Code Unit := do
  .update fun s =>
    match (requestedHome text).filter (validHome s.letterOrNumber) with
    | some home => { s with pendingHome := some ⟨home, s.now + 120_000⟩ }
    | none => s
  .when (isNavigation text) (navigate text)
  dispatch text false
  .update fun s => { s with manualUntil := s.now + 5000 }
  .when (isTeleportAnswer text) (.update scheduleSneak)
  emitting (.behaviorLog s!"Command dispatched: {text}")

def suspendSell (durationMs : ℤ) : Code Unit := do
  let s ← .read
  .when s.game.suspendSell (await (.suspendSell durationMs))

def runCommand (command : Command) : Code Unit := do
  suspendSell 5000
  let s ← .read
  .update fun s => { s with sell := none, foreground := none }
  let inventory ← openMenu command.type
  .when (inventory.containerSlots ≠ []) (await (.close inventory.menuId))
  .update fun s => { s with manualUntil := s.now + 5000 }
  match command.type with
  | .readSellMultipliers => readMultipliers s.generation inventory.menuId
  | .cleanSpawner => cleanSpawner s.generation inventory.menuId
  | .chat =>
      match command.text.filter (· ≠ "") with
      | some text => typeCommand text
      | none => pure ()

/-! #### Sales -/

/-- Changes the sale in progress if it is still the one with this identity. -/
def updateSell (s : Behaviors) (id : ℕ) (f : Sell → Sell) : Behaviors :=
  { s with sell := s.sell.map fun sale => if sale.id = id then f sale else sale }

def selling (s : Behaviors) (id : ℕ) : Bool := s.sell.any (·.id = id)

def sellIntervalMs (s : Behaviors) : ℚ := max 250 (s.cfg.autosellIntervalSeconds.getD 60 * 1000)

def sellCommand (s : Behaviors) : String :=
  .ofList (trim ((s.cfg.autosellCommand.filter (· ≠ "")).getD "/sell").toList)

def startSale (generation : ℕ) (now : ℤ) : Code Unit := do
  let s ← .read
  .update fun s => { s with sell := some { id := s.nextId, requested := now }, nextId := s.nextId + 1 }
  (dispatch s.sellCommand true).orCatch fun error => do
    .update fun t =>
      if t.selling s.nextId then { t with sell := none, nextSell := (t.now + 5000 : ℤ) } else t
    .fail error
  let t ← .read
  .when (t.selling s.nextId && t.generation = generation) (.update fun t =>
    { t.updateSell s.nextId fun sale => { sale with requested := t.now } with
      nextSell := now + t.sellIntervalMs })

/-- A slot still shows at least as many items of the same kind. -/
def unchangedIn (slots : List GameSlot) (previous : GameSlot) : Bool :=
  match slots.find? (·.slot = previous.slot) with
  | some current => current.itemId = previous.itemId && previous.count ≤ current.count
  | none => false

/-- Sends a transfer of the sale `id` and stamps it; a rejected one fails the sale. -/
def sendTransfer (id : ℕ) (transfer : Transfer) (call : Code Unit) : Code Unit := do
  .update fun s => s.updateSell id fun sale => { sale with pending := some transfer }
  Task.orCatch
    (fun _ => do
      let s ← .read
      .when (s.sell.any fun sale => sale.id = id && !sale.pending.any (·.confirmed))
        (failSell "Item-Transfer wurde abgelehnt"))
    (do
      call
      .update fun s => s.updateSell id fun sale =>
        { sale with pending := sale.pending.map fun p => { p with sentAt := s.now } })

/-- The next transfer of a sale whose menu is open and which waits for nothing. -/
def transferNext (id : ℕ) (targets : List ℕ) (inventory : GameInventory) (now : ℤ) :
    Code Unit := do
  let s ← .read
  if s.game.transferAll && targets ≠ [] then do
    .update fun s => s.updateSell id fun sale => { sale with targets := some [] }
    match inventory.slots.filter fun slot => targets.contains slot.slot && 0 < slot.count with
    | [] => cancelSell
    | item :: items =>
        sendTransfer id ⟨item, some (item :: items), now, false⟩
          (await (.transferAll inventory.menuId))
  else
    match targets with
    | [] => cancelSell
    | target :: targets => do
        .update fun s => s.updateSell id fun sale => { sale with targets := some targets }
        match inventory.slots.find? fun slot => slot.slot = target && 0 < slot.count with
        | none => pure ()
        | some item =>
            sendTransfer id ⟨item, none, now, false⟩
              (await (.click inventory.menuId item.slot .transfer))

/-- The open menu belongs to the sale; `opened` is when it was bound. -/
def advanceSale (sale : Sell) (opened : ℤ) (inventory : GameInventory) (now : ℤ) : Code Unit := do
  .update fun s => s.updateSell sale.id fun sale =>
    { sale with menu := inventory.menuId, opened := some opened }
  let populated := (inventory.slots.filter fun slot =>
    inventory.playerSlots.contains slot.slot && 0 < slot.count).map (·.slot)
  -- A newly opened menu can arrive before its content packet.
  .when (!(sale.targets.isNone && populated = [] && now - opened < 500)) do
    let targets := sale.targets.getD populated
    .update fun s => s.updateSell sale.id fun sale => { sale with targets := some targets }
    let waiting := sale.pending.any fun pending =>
      !pending.confirmed && (pending.batch.getD [pending.slot]).all (unchangedIn inventory.slots)
    if waiting then
      .when (sale.pending.any fun pending => 5000 ≤ now - pending.sentAt)
        (failSell "Item-Transfer wurde nicht bestätigt")
    else do
      .update fun s => s.updateSell sale.id fun sale => { sale with pending := none }
      transferNext sale.id targets inventory now

def continueSale (sale : Sell) (inventory : GameInventory) (now : ℤ) : Code Unit :=
  if sale.opened.isNone ∧ 10_000 ≤ now - sale.requested then
    failSell "Verkaufsmenü hat nicht rechtzeitig geantwortet"
  else if sale.opened.any fun opened => 120_000 ≤ now - opened then
    failSell "Zeitlimit für diesen Verkauf erreicht"
  else if inventory.containerSlots = [] then
    .when (sale.menu ≠ "") (.update fun s => { s with sell := none, nextSell := max s.nextSell now })
  else if !sellTitle inventory.title ∨ (sale.menu ≠ "" ∧ sale.menu ≠ inventory.menuId) then
    .update fun s => { s with sell := none }
  else
    advanceSale sale (if sale.menu = "" then now else sale.opened.getD now) inventory now

def tickSell (now : ℤ) : Code Unit := do
  let s ← .read
  .when (s.sell.isSome || s.nextSell ≤ now) do
    let inventory ← await .inventory
    let t ← .read
    .when (t.generation = s.generation) do
      match t.sell with
      | some sale => continueSale sale inventory t.now
      | none =>
          if inventory.containerSlots ≠ [] then
            -- Only a known late sale menu may be recovered; foreign menus stay open.
            .when (sellTitle inventory.title) do
              await (.close inventory.menuId)
              .update fun s => { s with nextSell := (t.now + 500 : ℤ) }
          else .when (t.nextSell ≤ t.now) (startSale s.generation t.now)

/-! #### Menu tasks -/

def updateForeground (s : Behaviors) (id : ℕ) (f : Foreground → Foreground) : Behaviors :=
  { s with foreground := s.foreground.map fun task => if task.id = id then f task else task }

def endForeground : Code Unit := .update fun s => { s with foreground := none }

def scanMultipliers (inventory : GameInventory) : Code Unit :=
  let entries := (inventory.containerSlots.take 9).map fun index =>
    (inventory.slots.find? (·.slot = index)).bind fun slot =>
      readMultiplier slot.displayName slot.tooltipLines
  .when ((seqs [bos, ilit "sell multi", eos]).test (plain inventory.title)
      && entries.length = 9 && entries.all Option.isSome) do
    await (.close inventory.menuId)
    endForeground
    emitting (.sellMultipliers entries.reduceOption)

def fingerprint (slots : List GameSlot) : String :=
  "|".intercalate (slots.map fun slot => s!"{slot.slot}:{slot.itemId}:{slot.count}")

/-- The slots a phase of `CleanSpawner` is about, and whether there is nothing left to do. -/
structure SpawnerView where
  matching : List GameSlot
  eligible : List GameSlot
  finished : Bool

def spawnerView (cfg : BehaviorConfig) (phase : SpawnerPhase) (inventory : GameInventory)
    (stock : List GameSlot) : SpawnerView :=
  let names := (match phase with
    | .drop => cfg.spawnerDropItems
    | .sell => cfg.spawnerSellItems).getD []
  if (cfg.spawnerType.filter (· ≠ "")).isSome then
    let matching := stock.filter fun slot => names.contains slot.itemId
    -- One stack of each selected item is kept.
    let eligible := matching.filter fun slot => 1 < matching.countP (·.itemId = slot.itemId)
    ⟨matching, eligible, eligible.isEmpty⟩
  else
    let matching := stock.insertionSort fun a b => b.slot ≤ a.slot
    let legacyDone := !stock.any fun slot => some slot.slot = inventory.containerSlots[2]?
    ⟨matching, matching, legacyDone || matching.isEmpty⟩

def isSellButton (cfg : BehaviorConfig) (slot : GameSlot) : Bool :=
  let configured := cfg.spawnerDropItems.getD [] ++ cfg.spawnerSellItems.getD []
  let text := [' '].intercalate ((slot.displayName :: slot.tooltipLines).map plain)
  !configured.contains slot.itemId && (oneOf [ilit "verkaufen", ilit "sell"]).test text

/-- Clicks for `CleanSpawner` and notes the click as unconfirmed. -/
def sendClick (id : ℕ) (click : Click) (call : Code Unit) : Code Unit := do
  .update fun s => s.updateForeground id fun task => { task with pending := some click }
  call

/-- The next click of `CleanSpawner` in its menu, or its end. -/
def clickSpawner (task : Foreground) (view : SpawnerView) (stock : List GameSlot)
    (inventory : GameInventory) (now : ℤ) : Code Unit := do
  let s ← .read
  if view.finished then
    if task.phase = .drop ∧ (s.cfg.spawnerType.filter (· ≠ "")).isSome then
      .update fun s => s.updateForeground task.id fun task => { task with phase := .sell }
    else do
      await (.close inventory.menuId)
      endForeground
      emitting (.behaviorLog "Spawner aufgeräumt; Menü geschlossen")
  else do
    match task.phase with
    | .drop =>
        match view.eligible.head? with
        | some slot =>
            sendClick task.id ⟨fingerprint view.matching, some slot, now, false⟩
              (await (.click inventory.menuId slot.slot .drop))
        | none => pure ()
    | .sell =>
        match stock.find? (isSellButton s.cfg) with
        | some button =>
            sendClick task.id ⟨fingerprint view.matching, none, now, false⟩
              (await (.click inventory.menuId button.slot .left))
        | none => pure ()
    .update fun s => s.updateForeground task.id fun task =>
      { task with
        pending := task.pending.map fun p => { p with sentAt := s.now }, next := s.now + 400 }

def tickSpawner (task : Foreground) (opened : ℤ) (inventory : GameInventory) (now : ℤ) :
    Code Unit := do
  let s ← .read
  let stock := inventory.slots.filter fun slot =>
    inventory.containerSlots.contains slot.slot && 0 < slot.count
  .when (!(stock = [] && now - opened < 1000)) do
    let view := spawnerView s.cfg task.phase inventory stock
    let waiting := task.pending.any fun pending =>
      !pending.confirmed && match pending.slot with
        | some slot => unchangedIn stock slot
        | none => fingerprint view.matching = pending.fingerprint
    if waiting then
      .when (task.pending.any fun pending => 5000 ≤ now - pending.sentAt) do
        closeOwned inventory.menuId
        endForeground
        emitting (.warning "CleanSpawner: Änderung wurde nicht bestätigt; Vorgang abgebrochen")
    else do
      .update fun s => s.updateForeground task.id fun task => { task with pending := none }
      clickSpawner task view stock inventory now

/-- A menu task sees the inventory at `now`. -/
def advanceForeground (task : Foreground) (inventory : GameInventory) (now : ℤ) : Code Unit :=
  if task.deadline ≤ now then do
    .when (task.menu ≠ "") (closeOwned task.menu)
    endForeground
    emitting (.warning (match task.kind with
      | .multipliers => "Desmo: SELL MULTI nicht vollständig lesbar (10s Timeout)"
      | .spawner => "CleanSpawner: Zeitlimit erreicht; Menü geschlossen"))
  else if inventory.containerSlots = [] then .when (task.menu ≠ "") endForeground
  else if inventory.menuId = task.previousMenu then pure ()
  else if task.menu ≠ "" ∧ task.menu ≠ inventory.menuId then endForeground
  else do
    let opened := if task.menu = "" then now else task.opened.getD now
    .update fun s => s.updateForeground task.id fun task =>
      { task with menu := inventory.menuId, opened := some opened }
    match task.kind with
    | .multipliers => scanMultipliers inventory
    | .spawner => tickSpawner task opened inventory now

def tickForeground (now : ℤ) : Code Unit := do
  let s ← .read
  match s.foreground with
  | none => pure ()
  | some task =>
      .when (task.next ≤ now) do
        let inventory ← await .inventory
        let t ← .read
        match t.foreground with
        | some current => .when (current.id = task.id) (advanceForeground current inventory t.now)
        | none => pure ()

/-! #### The scheduler -/

/-- `if (this.homeGatePending !== undefined) ...` -/
def settleHomeGate : Code Unit := do
  let s ← .read
  match s.homeGatePending with
  | some pending => do
      recoveringHome pending
      .update fun s => { s with homeGatePending := none }
  | none => pure ()

def settleSavedHome : Code Unit := do
  let s ← .read
  match s.saveHome with
  | some home => do
      .when s.game.rememberHome (await (.rememberHome home))
      .update fun s => if s.saveHome = some home then { s with saveHome := none } else s
  | none => pure ()

/-- Checks are intentionally silent. -/
def reassertSneak (now : ℤ) : Code Unit := do
  .update (·.runSneakChecks now)
  let s ← .read
  .when (s.cfg.crouchEnabled = some true && s.nextSneak ≤ now) (Task.orCatch
    (fun _ => .update fun s => { s with nextSneak := now + 1000 })
    (do
      await .sneak
      .update fun s => { s with nextSneak := now + 30 * 60_000 }))

def takeCommand (command : Command) (now : ℤ) : Code Unit := do
  let ready ← creditReady now
  .when ready do
    .update fun s => { s with commands := s.commands.tail }
    (runCommand command).orCatch fun error => emitting (.warning
      (s!"Befehl {command.text.getD command.type.name} fehlgeschlagen: {error.message}. Bei einem "
        ++ "Timeout vor erneutem Senden die Serverantwort prüfen."))

/-- A single idempotent destination command, retried with a growing delay. -/
def returnHome (now : ℤ) : Code Unit := do
  .update fun s => { s with
    homeAttempts := s.homeAttempts + 1
    homeDue := now + min 120_000 (15_000 * 2 ^ min 3 s.homeAttempts)
    pendingHome := some ⟨s.home, now + 120_000⟩ }
  let s ← .read
  Task.orCatch
    (fun error => .update fun s =>
      if elapsed now s.lastHomeWarning 60_000 then
        { s with lastHomeWarning := some now }.emit (.warning
          s!"Rückkehr zum bestätigten Home noch nicht möglich: {error.message}; erneuter Versuch mit Wartezeit")
      else s)
    (do
      dispatch s!"/home {s.home}" false
      .update fun s => s.emit (.behaviorLog s!"Reconnect: Rückkehr zu Home {s.home} angefordert"))

def tickAutomation (now : ℤ) : Code Unit := do
  let s ← .read
  if s.pauseStart ≤ now ∧ now < s.pauseEnd then cancelSell
  else if now < s.readyAt then pure ()
  else if s.foreground.isSome then tickForeground now
  else if s.returningHome then
    .when (s.homeDue ≤ now) do
      let ready ← creditReady now
      .when ready (returnHome now)
  else
    .when (s.cfg.autosellEnabled = some true && s.manualUntil ≤ now && !s.game.nativeAutosell)
      (tickSell now)

/-- What a tick does behind the retries of the home gate. -/
def tickTasks (now : ℤ) : Code Unit := do
  settleSavedHome
  let s ← .read
  -- Native selling handles an inventory lock on the game thread.
  .when (s.inventoryBlockedUntil ≤ now) do
    reassertSneak now
    let s ← .read
    match s.commands with
    | command :: _ => takeCommand command now
    | [] => tickAutomation now

def tick : Code Unit := do
  let s ← .read
  .when s.online do
    settleHomeGate
    tickTasks s.now

/-! ### Steps -/

/-- One step of a bot: a call of a method, the answer to a task that is paused in a
call of the gateway, or the clock. -/
inductive Input where
  | configure (config : BehaviorConfig)
  | spawned
  | joining
  | transition
  | pause (afterMs resumeMs : ℤ)
  | enqueue (type : CommandType) (text : Option String)
  | checkSneak
  | chat (sender : Option String) (message : String)
  | tick
  | answer (task : ℕ) (answers : (c : GameCall) → Except Failure c.Reply)
  | clock (now : ℤ)

/-- A bot and its paused tasks, the latest first. -/
structure Bot where
  vars : Behaviors
  paused : List ((c : GameCall) × (Except Failure c.Reply → Code Unit)) := []

def Bot.proceed (b : Bot) (t : Code Unit) : Bot :=
  match t.advance b.vars with
  | (vars, .ended _) => { b with vars := vars }
  | (vars, .calling c next) => ⟨vars, ⟨c, next⟩ :: b.paused⟩

def Bot.on (b : Bot) (f : Behaviors → Behaviors) : Bot := { b with vars := f b.vars }

def Bot.step (b : Bot) (i : Input) : Bot :=
  let b := b.on fun s => { s with outbox := [] }
  match i with
  | .configure config => b.proceed (Behaviors.configure config)
  | .spawned => b.proceed Behaviors.spawned
  | .joining => b.on joining
  | .transition => b.on transition
  | .pause afterMs resumeMs => b.on (·.pause afterMs resumeMs)
  | .enqueue type text => b.on (·.enqueue type text)
  | .checkSneak => b.on checkSneak
  | .chat sender message => b.on (·.onChat sender message)
  | .tick => b.proceed Behaviors.tick
  | .answer task answers =>
      match b.paused[task]? with
      | some ⟨c, next⟩ => { b with paused := b.paused.eraseIdx task }.proceed (next (answers c))
      | none => b
  | .clock now => b.on fun s => { s with now := now }

end Behaviors

end AfkClient
