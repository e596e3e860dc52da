import AfkClient.Library.TimerVar
import AfkClient.Model.Messages
import AfkClient.Model.ReconnectPolicy
import Mathlib.Algebra.Ring.Nat
import Mathlib.Data.Rat.Defs

/-! The supervisor of one account. A handler is a function on the client's state; what
it emits is collected in `outbox`, and the input of a step is a call, a timer, or an
event of the current or of a superseded controller. -/

namespace AfkClient

/-! ### Configuration -/

inductive ClientStatus where
  | offline | connecting | online | disconnecting | reconnecting | error
  deriving DecidableEq, Repr

inductive ConsoleEventType where
  | system | chat | serverMessage | userCommand | error | warning
  deriving DecidableEq, Repr

inductive Edition where
  | java | bedrock
  deriving DecidableEq, Repr

inductive AuthType where
  | offline | microsoft
  deriving DecidableEq, Repr

inductive AutoButton where
  | off | left | right
  deriving DecidableEq, Repr

structure ClientRuntimeConfig where
  id : String
  name : String
  minecraftVersion : String := ""
  serverHost : String
  serverPort : ℕ := 25565
  edition : Edition := .java
  authType : AuthType := .microsoft
  credentialsSecret : Option String := none
  credentialsPassword : Option String := none
  crouchEnabled : Bool := false
  autoButton : AutoButton := .off
  autoReconnect : Bool := true
  autoReturnHome : Option Bool := some true
  autoSellEnabled : Bool := false
  autoSellIntervalSeconds : ℚ := 60
  autoSellCommand : String := "/sell"
  spawnerType : String := ""
  spawnerDropItems : List String := []
  spawnerSellItems : List String := []
  deriving DecidableEq, Repr

/-- The behavior settings a bot is told, in its first line or by `configure`. -/
structure BehaviorSettings where
  autoReturnHome : Bool
  crouchEnabled : Bool
  autoButton : AutoButton
  autosellEnabled : Bool
  autosellIntervalSeconds : ℚ
  autosellCommand : String
  spawnerType : String
  spawnerDropItems : List String
  spawnerSellItems : List String
  deriving DecidableEq, Repr

def ClientRuntimeConfig.behaviorSettings (c : ClientRuntimeConfig) : BehaviorSettings where
  autoReturnHome := c.autoReturnHome.getD true
  crouchEnabled := c.crouchEnabled
  autoButton := c.autoButton
  autosellEnabled := c.autoSellEnabled
  autosellIntervalSeconds := c.autoSellIntervalSeconds
  autosellCommand := c.autoSellCommand
  spawnerType := c.spawnerType
  spawnerDropItems := c.spawnerDropItems
  spawnerSellItems := c.spawnerSellItems

/-- A pause of automatic selling, in milliseconds from the moment it is read. -/
structure SellPauseWindow where
  autosellPauseAfterMs : ℤ
  autosellResumeAfterMs : ℤ
  deriving DecidableEq, Repr

structure InitialConfig where
  host : String
  port : ℕ
  authType : AuthType
  username : String
  accountId : String
  edition : Edition
  version : String
  email : Option String
  password : Option String
  cacheDir : String
  settings : BehaviorSettings
  pause : SellPauseWindow
  deriving DecidableEq, Repr

/-- The lines written to a controller. -/
inductive BotMessage where
  | config (config : InitialConfig)
  | configure (settings : BehaviorSettings)
  | pauseAutosell (window : SellPauseWindow)
  | checkCrouch
  | chat (text : String)
  | readSellMultipliers
  | cleanSpawner
  | disconnect
  deriving DecidableEq, Repr

/-! ### Events and outputs -/

structure SellMultiplier where
  name : String
  multiplier : String
  progress : String
  deriving DecidableEq, Repr

/-- The lines a controller writes. -/
inductive BotEvent where
  | msaCode (verificationUri userCode : String) (expiresIn : ℕ)
  | profile (username uuid : String)
  | login
  | spawn
  | chat (sender : Option String) (message : String)
  | behaviorLog (message : String)
  | sellMultipliers (entries : List SellMultiplier)
  | heartbeat
  | controlStatus (available : Option Bool) (error : String)
  | warning (message : String)
  | disconnect (reason : Option String)
  | connectionFailed (error : String)
  | fatalError (error : String)
  | unknown
  deriving DecidableEq, Repr

structure MsaSignInPrompt where
  verificationUri : String
  userCode : String
  message : String
  expiresAt : ℤ
  deriving DecidableEq, Repr

structure ClientStatusSnapshot where
  id : String
  name : String
  status : ClientStatus
  serverHost : String
  serverPort : ℕ
  connectedSince : Option ℤ
  lastError : Option String
  msaSignIn : Option MsaSignInPrompt
  authenticated : Bool
  deriving DecidableEq, Repr

/-- What a step does to the outside; an earning is counted in cents. -/
inductive Output where
  | console (type : ConsoleEventType) (message : String) (timestamp : ℤ)
  | status (snapshot : ClientStatusSnapshot)
  | profile (username uuid : String)
  | earning (amount : ℕ)
  | chat (message : String)
  | createController (controller : ℕ)
  | write (controller : ℕ) (message : BotMessage)
  | stopRemoteAccount (controller : ℕ) (cacheDir : String)
  | terminateSubprocess (controller : ℕ)
  deriving DecidableEq, Repr

/-! ### State -/

inductive HangKind where
  | entry | signIn | world
  deriving DecidableEq, Repr

/-- A pending hang timer and the controller that was current when it was armed. -/
structure HangTimer where
  kind : HangKind
  armedBy : Option ℕ
  due : ℤ
  deriving DecidableEq, Repr

/-- A pending interval of the restart crouch checks, with the runs it has left. -/
structure CrouchTimer where
  remaining : ℤ
  due : ℤ
  deriving DecidableEq, Repr

structure Client where
  config : ClientRuntimeConfig
  reconnectPolicy : ReconnectPolicy := {}
  /-- Controllers are numbered in the order of their creation. -/
  subprocess : Option ℕ := none
  status : ClientStatus := .offline
  reconnectTimer : TimerVar ℤ := {}
  restartTimer : TimerVar ℤ := {}
  hangTimer : TimerVar HangTimer := {}
  onlineWatchdog : TimerVar ℤ := {}
  lastHeartbeatAt : ℤ := 0
  lastControlFailureAt : Option ℤ := none
  manuallyStopped : Bool := false
  connectionEnded : Bool := false
  connectedSince : Option ℤ := none
  lastError : Option String := none
  msaSignIn : Option MsaSignInPrompt := none
  authenticated : Bool := false
  worldRestartAt : Option ℤ := none
  restartCrouchTimer : TimerVar CrouchTimer := {}
  restartCrouchWindowEnd : ℤ := 0
  lastCrouchRestartAt : Option ℤ := none
  pendingRestartCrouchCheck : Bool := false
  periodicCrouchTimer : TimerVar ℤ := {}
  pendingPeriodicCrouchCheck : Bool := false
  /-- The clock reading of `Date.now()`. -/
  now : ℤ := 0
  /-- Set while creating a controller throws, with the message. -/
  spawnError : Option String := none
  /-- The lines written to the current controller, latest first. -/
  stdin : List BotMessage := []
  stdinWritable : Bool := true
  /-- Number of controllers created. -/
  created : ℕ := 0
  /-- Number of connection attempts, and those whose end consulted the reconnect policy. -/
  attempts : ℕ := 0
  consulted : List ℕ := []
  /-- What the current step emitted, latest first. -/
  outbox : List Output := []
  deriving DecidableEq, Repr

def MANUAL_RESTART_DELAY_MS : ℤ := 5_000
def SUBPROCESS_HANG_TIMEOUT_MS : ℤ := 5 * 60_000
def AUTHENTICATED_WORLD_ENTRY_TIMEOUT_MS : ℤ := 90_000
def SUBPROCESS_ONLINE_SILENCE_MS : ℤ := 45_000
def ONLINE_WATCHDOG_INTERVAL_MS : ℤ := 15_000
def CONTROL_OUTAGE_LEASE_MS : ℤ := 15_000

namespace Client

/-! ### Outputs -/

def emit (s : Client) (o : Output) : Client := { s with outbox := o :: s.outbox }

def emitConsole (s : Client) (type : ConsoleEventType) (message : String) : Client :=
  s.emit (.console type message s.now)

def getStatus (s : Client) : ClientStatusSnapshot where
  id := s.config.id
  name := s.config.name
  status := s.status
  serverHost := s.config.serverHost
  serverPort := s.config.serverPort
  connectedSince := s.connectedSince
  lastError := s.lastError
  msaSignIn := s.msaSignIn
  authenticated := s.authenticated

def emitStatus (s : Client) : Client := s.emit (.status s.getStatus)

/-- Whether `sendToBot` would write: a controller with a usable pipe. -/
def canSend (s : Client) : Bool := s.subprocess.isSome && s.stdinWritable

def sendToBot (s : Client) (message : BotMessage) : Client :=
  match s.subprocess with
  | some child =>
      if s.stdinWritable then { s with stdin := message :: s.stdin }.emit (.write child message) else s
  | none => s

/-! ### Timers -/

def clearReconnectTimer (s : Client) : Client := { s with reconnectTimer := s.reconnectTimer.clear }

def clearRestartTimer (s : Client) : Client := { s with restartTimer := s.restartTimer.clear }

def clearHangTimer (s : Client) : Client := { s with hangTimer := s.hangTimer.clear }

def clearOnlineWatchdog (s : Client) : Client := { s with onlineWatchdog := s.onlineWatchdog.clear }

def armHangTimer (s : Client) (kind : HangKind) (delay : ℤ) : Client :=
  { s with hangTimer := s.hangTimer.arm ⟨kind, s.subprocess, s.now + delay⟩ }

def startOnlineWatchdog (s : Client) : Client :=
  let s := s.clearOnlineWatchdog
  { s with onlineWatchdog := s.onlineWatchdog.arm (s.now + ONLINE_WATCHDOG_INTERVAL_MS) }

def syncPeriodicCrouchChecks (s : Client) : Client :=
  if s.manuallyStopped || !s.config.crouchEnabled || s.status == .error then
    { s with periodicCrouchTimer := s.periodicCrouchTimer.clear, pendingPeriodicCrouchCheck := false }
  else if s.status == .online then
    let s :=
      if s.pendingPeriodicCrouchCheck && s.canSend then
        { s.sendToBot .checkCrouch with pendingPeriodicCrouchCheck := false }
      else s
    if s.periodicCrouchTimer.handle.isNone then
      { s with periodicCrouchTimer := s.periodicCrouchTimer.arm (s.now + 30 * 60_000) }
    else s
  else s

/-! ### Connection life cycle -/

def setStatus (s : Client) (newStatus : ClientStatus) : Client :=
  if s.status = newStatus then s
  else { s with status := newStatus }.syncPeriodicCrouchChecks.emitStatus

def botCache (s : Client) : String := "bot-cache/" ++ s.config.id

/-- The account's controller is told to stop; `reason` is only logged. -/
def teardownSubprocess (s : Client) : Client :=
  let s := s.clearOnlineWatchdog
  match s.subprocess with
  | none => { s with connectedSince := none, msaSignIn := none, authenticated := false }
  | some child =>
      let s := s.sendToBot .disconnect
      let s := { s with
        subprocess := none, connectedSince := none, msaSignIn := none, authenticated := false }
      (s.emit (.stopRemoteAccount child s.botCache)).emit (.terminateSubprocess child)

/-- The attempt is over: its hang timer, its watchdog and its controller go. -/
def endConnection (s : Client) (reason : String) : Client :=
  { s with connectionEnded := true, lastError := some reason }.clearHangTimer.teardownSubprocess

def scheduleReconnect (s : Client) (reason : String) (stableForMs : ℤ) : Client :=
  let (delay, policy) := s.reconnectPolicy.delay reason stableForMs
  let s := { s with reconnectPolicy := policy, consulted := s.attempts :: s.consulted }
  let s := s.setStatus .reconnecting
  let s := s.emitConsole .system s!"Reconnecting in {(delay + 500) / 1000}s..."
  { s with reconnectTimer := s.reconnectTimer.arm (s.now + delay) }

def handleConnectionFailure (s : Client) (reason : String) : Client :=
  if s.connectionEnded then s
  else
    let stableForMs := (s.connectedSince.map (s.now - ·)).getD 0
    let s := s.endConnection reason
    if s.manuallyStopped then s.setStatus .offline
    else if !s.config.autoReconnect then
      (s.emitConsole .warning "Auto-reconnect is disabled; staying offline.").setStatus .error
    else s.scheduleReconnect reason stableForMs

def sellPauseWindow (s : Client) : SellPauseWindow :=
  match s.worldRestartAt with
  | none => ⟨0, 0⟩
  | some restartAt =>
      if restartAt + WORLD_RESTART_SELL_COOLDOWN_MS ≤ s.now then ⟨0, 0⟩
      else
        ⟨max 0 (restartAt - WORLD_RESTART_SELL_LEAD_MS - s.now),
          restartAt + WORLD_RESTART_SELL_COOLDOWN_MS - s.now⟩

def initialConfig (s : Client) : InitialConfig where
  host := s.config.serverHost
  port := s.config.serverPort
  authType := s.config.authType
  username := s.config.name
  accountId := s.config.id
  edition := s.config.edition
  version := s.config.minecraftVersion
  email := s.config.credentialsSecret
  password := s.config.credentialsPassword
  cacheDir := s.botCache
  settings := s.config.behaviorSettings
  pause := s.sellPauseWindow

def createSoulFireController (s : Client) : Client :=
  { s with
    subprocess := some s.created, created := s.created + 1,
    stdin := [], stdinWritable := true }.emit (.createController s.created)

def beginAttempt (s : Client) (reconnecting : Bool) : Client :=
  let s := { s with
    connectionEnded := false, lastControlFailureAt := none, attempts := s.attempts + 1 }
  let s := s.setStatus (if reconnecting then .reconnecting else .connecting)
  { s with lastError := none }

/-- The attempt gets its controller, which is told its configuration in the first line. -/
def startController (s : Client) : Client :=
  let s := s.createSoulFireController
  let s := { s with lastHeartbeatAt := s.now }.startOnlineWatchdog
  let s := s.sendToBot (.config s.initialConfig)
  s.armHangTimer .entry SUBPROCESS_HANG_TIMEOUT_MS

def attemptConnect (s : Client) (reconnecting : Bool) : Client :=
  let s := s.beginAttempt reconnecting
  match s.spawnError with
  | some message => s.handleConnectionFailure message
  | none => s.startController

/-! ### Calls -/

def updateConfig (s : Client) (config : ClientRuntimeConfig) : Client :=
  let s := { s with config := config }.syncPeriodicCrouchChecks
  if s.subprocess.isSome && s.status == .online then
    s.sendToBot (.configure config.behaviorSettings)
  else s

def connect (s : Client) : Client :=
  if s.status ≠ .offline ∧ s.status ≠ .error then s
  else if s.restartTimer.handle.isSome then s
  else
    let s := { s with manuallyStopped := false, reconnectPolicy := s.reconnectPolicy.reset }
    s.clearReconnectTimer.attemptConnect false

def disconnect (s : Client) : Client :=
  let s := { s with manuallyStopped := true }.syncPeriodicCrouchChecks
  s.clearRestartTimer.clearReconnectTimer.clearHangTimer.teardownSubprocess.setStatus .offline

def dispose (s : Client) : Client :=
  { s with restartCrouchTimer := s.restartCrouchTimer.clear }.disconnect

def restart (s : Client) : Client :=
  let s := { s with manuallyStopped := false, reconnectPolicy := s.reconnectPolicy.reset }
  let s := s.clearRestartTimer.clearReconnectTimer.clearHangTimer
  let s := s.teardownSubprocess.setStatus .offline
  let s := s.emitConsole .system "Restart: waiting 5 seconds before reconnecting..."
  { s with restartTimer := s.restartTimer.arm (s.now + MANUAL_RESTART_DELAY_MS) }

/-- The new state and whether the command was taken care of. -/
def sendCommand (s : Client) (command : String) : Client × Bool :=
  if isBlockedAfkCommand command then (s.emitConsole .warning AFK_BLOCK_MESSAGE, true)
  else if !isSlashCommand command then
    (s.emitConsole .error "Nur Slash-Befehle mit / am Anfang sind erlaubt", false)
  else if s.status ≠ .online ∨ s.subprocess = none then
    (s.emitConsole .error "Bot is not online, cannot send command", false)
  else if s.canSend then
    let message := if command = "/desmo" then .readSellMultipliers else .chat command
    ((s.sendToBot message).emitConsole .userCommand command, true)
  else (s.emitConsole .error "Command konnte nicht an den Bot übermittelt werden", false)

def cleanSpawner (s : Client) : Client × Bool :=
  if s.status ≠ .online ∨ s.subprocess = none then
    (s.emitConsole .error "Bot is not online, cannot clean spawner", false)
  else ((s.sendToBot .cleanSpawner).emitConsole .system "Clean spawner task dispatched", true)

/-! ### Crouch checks after a world restart -/

def scheduleRestartCrouchChecks (s : Client) (restartAt : ℤ) : Client :=
  if s.lastCrouchRestartAt.any fun last => (restartAt - last).natAbs ≤ 5000 then s
  else
    let timer := s.restartCrouchTimer.clear
    { s with
      lastCrouchRestartAt := some restartAt
      restartCrouchWindowEnd := s.now + 5 * 60_000
      pendingRestartCrouchCheck := false
      restartCrouchTimer := timer.arm ⟨5, s.now + 60_000⟩ }

/-- Whether `sendRestartCrouchCheck` would send its check. -/
def canCheckCrouch (s : Client) : Bool := s.status == .online && s.config.crouchEnabled && s.canSend

def sendRestartCrouchCheck (s : Client) : Client :=
  if s.canCheckCrouch then s.sendToBot .checkCrouch else s

/-! ### Events of the controller -/

def multiplierText : Re :=
  Re.seqs [.bos, Re.some1 Re.digit, Re.opt (.seq separator (Re.some1 Re.digit)),
    .set (· ∈ ['x', 'X', '×']), .eos]

def moneyText : Re :=
  Re.seqs [Re.digit, Re.many (.set fun c => c.isDigit || c == '.' || c == ','),
    Re.opt (.set fun c => c.toUpper ∈ ['K', 'M', 'B', 'T'] || c == '\u212a'), Re.lit "$"]

def progressText : Re :=
  Re.seqs [.bos, moneyText, Re.lit "/", moneyText, Re.lit " - ", Re.some1 Re.digit,
    Re.opt (.seq separator (Re.some1 Re.digit)), Re.lit "%", .eos]

/-- Length in UTF-16 units. -/
def utf16Length (text : String) : ℕ :=
  (text.toList.map fun c => if c.val < 0x10000 then 1 else 2).sum

def SellMultiplier.valid (entry : SellMultiplier) : Bool :=
  Text.trim entry.name.toList ≠ [] && utf16Length entry.name ≤ 256
    && utf16Length entry.multiplier ≤ 32 && multiplierText.test entry.multiplier.toList
    && utf16Length entry.progress ≤ 96 && progressText.test entry.progress.toList

def SellMultiplier.describe (entry : SellMultiplier) : String :=
  let name := (stripFormatting entry.name.toList).map fun c => if c = '\r' ∨ c = '\n' then ' ' else c
  String.ofList (Text.trim name) ++ "\n  Aktueller Multiplikator: " ++ entry.multiplier
    ++ "\n  Fortschritt: " ++ entry.progress

/-- HugoSMP sends its own announcements through the named chat channel. -/
def fromServer (sender : Option String) : Bool :=
  match sender with
  | none => true
  | some name =>
      name.isEmpty || Text.toLowerCase (stripFormatting name.toList) == "hugosmp".toList

def announceRestart (s : Client) (seconds : ℕ) : Client :=
  let restartAt := s.now + seconds * 1000
  let s := { s with worldRestartAt := some restartAt }
  let s := if seconds ≤ 10 then s.scheduleRestartCrouchChecks restartAt else s
  let s := s.sendToBot (.pauseAutosell s.sellPauseWindow)
  s.emitConsole .system "Weltneustart: AutoSell pausiert ab 10 Sekunden vorher bis 2 Minuten danach"

def pauseForRestart (s : Client) (sender : Option String) (clean : String) : Client :=
  match parseWorldRestartSeconds clean with
  | some seconds => if fromServer sender then s.announceRestart seconds else s
  | none => s

def bookEarning (s : Client) (clean : String) : Client :=
  match parseSellEarning clean with
  | some amount => s.emit (.earning amount)
  | none => s

def reportChat (s : Client) (sender : Option String) (clean : String) : Client :=
  let s := s.emit (.chat clean)
  match sender.filter (! ·.isEmpty) with
  | some name => s.emitConsole .chat s!"<{stripMinecraftFormatting name}> {clean}"
  | none => s.emitConsole .serverMessage clean

def handleChat (s : Client) (sender : Option String) (message : String) : Client :=
  let clean := stripMinecraftFormatting message
  let s := ((s.pauseForRestart sender clean).bookEarning clean).reportChat sender clean
  if fromServer sender && isServerFallbackMessage clean then
    (s.emitConsole .warning
      "Spielserver-Verbindung verloren; Wiederverbindung gemäß Auto-Reconnect-Einstellung"
      ).handleConnectionFailure clean
  else s

def handleControlStatus (s : Client) (available : Option Bool) (error : String) : Client :=
  match available with
  | some false =>
      let s :=
        if s.lastControlFailureAt.isNone then
          s.emitConsole .warning (String.ofList (Text.trim
            ("Gemeinsamer SoulFire-Dienst nicht erreichbar; Minecraft-Verbindung wird nicht vorsorglich getrennt. "
              ++ error).toList))
        else s
      { s with lastControlFailureAt := some s.now }
  | some true =>
      if s.lastControlFailureAt.isSome then
        { s with lastControlFailureAt := none, lastHeartbeatAt := s.now }.emitConsole .system
          "SoulFire-Steuerverbindung wieder erreichbar; prüfe bestehende Minecraft-Verbindung."
      else s
  | none => s

def handleSpawn (s : Client) : Client :=
  let s := s.clearHangTimer
  let s := { s with
    lastControlFailureAt := none, lastHeartbeatAt := s.now, connectedSince := some s.now,
    msaSignIn := none, lastError := none }
  let s := (s.setStatus .online).emitConsole .system "Spawned into the world"
  if s.pendingRestartCrouchCheck && s.now ≤ s.restartCrouchWindowEnd && s.canCheckCrouch then
    { s.sendRestartCrouchCheck with pendingRestartCrouchCheck := false }
  else s

def handleBotEvent (s : Client) : BotEvent → Client
  | .msaCode uri code expiresIn =>
      let s := s.clearHangTimer.armHangTimer .signIn (min expiresIn 900 * 1000 + 15_000)
      let s := { s with msaSignIn := some {
        verificationUri := uri, userCode := code,
        message := s!"Visit {uri} and enter code {code}", expiresAt := s.now + expiresIn * 1000 } }
      (s.emitConsole .system s!"Microsoft sign-in required: {uri} (code: {code})").emitStatus
  | .profile username uuid =>
      let s := s.clearHangTimer.armHangTimer .world AUTHENTICATED_WORLD_ENTRY_TIMEOUT_MS
      let s := { s with msaSignIn := none, authenticated := true }
      let s := s.emitConsole .system s!"Authenticated as {username}"
      (s.emit (.profile username uuid)).emitStatus
  | .login => s.emitConsole .system "Logged in, joining world..."
  | .spawn => s.handleSpawn
  | .chat sender message => s.handleChat sender message
  | .behaviorLog message => s.emitConsole .system message
  | .sellMultipliers entries =>
      if entries.length ≠ 9 ∨ !entries.all SellMultiplier.valid then
        s.emitConsole .warning "Desmo: Multiplikatoren konnten nicht vollständig ausgelesen werden"
      else
        s.emitConsole .system ("Desmo: Verkaufsmultiplikatoren (9 Kategorien)\n\n"
          ++ "\n\n".intercalate (entries.map SellMultiplier.describe))
  | .heartbeat => { s with lastControlFailureAt := none, lastHeartbeatAt := s.now }
  | .controlStatus available error => s.handleControlStatus available error
  | .warning message => s.emitConsole .warning message
  | .disconnect reason =>
      let reason := reason.getD "unknown reason"
      (s.emitConsole .system s!"Disconnected: {reason}").handleConnectionFailure reason
  | .connectionFailed error =>
      (s.emitConsole .error s!"Connection failed: {error}").handleConnectionFailure error
  | .fatalError error =>
      (s.emitConsole .error s!"Fatal error: {error}").handleConnectionFailure error
  | .unknown => s

/-! ### Timers firing -/

def onReconnect (s : Client) (handle : ℕ) : Client :=
  { s with reconnectTimer := (s.reconnectTimer.fire handle).forget }.attemptConnect true

def onRestart (s : Client) (handle : ℕ) : Client :=
  let s := { s with restartTimer := (s.restartTimer.fire handle).forget }
  if s.manuallyStopped then s else s.attemptConnect false

def onHang (s : Client) (handle : ℕ) (kind : HangKind) : Client :=
  let s := { s with hangTimer := s.hangTimer.fire handle }
  match kind with
  | .entry =>
      if s.status = .connecting ∨ s.status = .reconnecting then
        (s.emitConsole .error
          "Connection timed out: bot did not enter the world within 5 minutes"
          ).handleConnectionFailure "Connection timed out"
      else s
  | .signIn => s.handleConnectionFailure "Microsoft-Anmeldung abgelaufen"
  | .world =>
      (s.emitConsole .error
        "Connection timed out: authenticated, but no world entry confirmed within 90 seconds"
        ).handleConnectionFailure "Connection timed out after authentication (no world entry)"

def onWatchdog (s : Client) (handle : ℕ) : Client :=
  let s := { s with
    onlineWatchdog := s.onlineWatchdog.update handle fun _ => s.now + ONLINE_WATCHDOG_INTERVAL_MS }
  if s.status ≠ .online then s
  else if s.lastControlFailureAt.any fun failure => s.now - failure < CONTROL_OUTAGE_LEASE_MS then s
  else if SUBPROCESS_ONLINE_SILENCE_MS < s.now - s.lastHeartbeatAt then
    (s.emitConsole .warning "Bot appears frozen (no heartbeat); reconnecting…"
      ).handleConnectionFailure "Bot froze (no heartbeat)"
  else s

def onRestartCrouch (s : Client) (handle : ℕ) (timer : CrouchTimer) : Client :=
  let remaining := timer.remaining - 1
  let s := { s with
    restartCrouchTimer := s.restartCrouchTimer.update handle fun _ => ⟨remaining, s.now + 60_000⟩ }
  let s :=
    if s.config.crouchEnabled then
      { s.sendRestartCrouchCheck with pendingRestartCrouchCheck := !s.canCheckCrouch }
    else s
  if remaining = 0 then { s with restartCrouchTimer := s.restartCrouchTimer.clear } else s

def onPeriodicCrouch (s : Client) (handle : ℕ) : Client :=
  let s := { s with
    periodicCrouchTimer := s.periodicCrouchTimer.update handle fun _ => s.now + 30 * 60_000 }
  if s.status = .online ∧ s.canSend then
    { s.sendToBot .checkCrouch with pendingPeriodicCrouchCheck := false }
  else { s with pendingPeriodicCrouchCheck := true }

/-! ### Steps -/

/-- The timer variables of the client. -/
inductive TimerName where
  | reconnect | restart | hang | onlineWatchdog | restartCrouch | periodicCrouch
  deriving DecidableEq, Repr

def fire (s : Client) (timer : TimerName) (handle : ℕ) : Client :=
  match timer with
  | .reconnect => if (s.reconnectTimer.find? handle).isSome then s.onReconnect handle else s
  | .restart => if (s.restartTimer.find? handle).isSome then s.onRestart handle else s
  | .hang =>
      match s.hangTimer.find? handle with
      | some timer => s.onHang handle timer.kind
      | none => s
  | .onlineWatchdog => if (s.onlineWatchdog.find? handle).isSome then s.onWatchdog handle else s
  | .restartCrouch =>
      match s.restartCrouchTimer.find? handle with
      | some timer => s.onRestartCrouch handle timer
      | none => s
  | .periodicCrouch =>
      if (s.periodicCrouchTimer.find? handle).isSome then s.onPeriodicCrouch handle else s

/-- Listeners ignore the events of a superseded controller. -/
def ifCurrent (s : Client) (child : ℕ) (handle : Client → Client) : Client :=
  if s.subprocess = some child then handle s else s

def onClose (s : Client) (code : Option ℤ) : Client :=
  if s.manuallyStopped then s.teardownSubprocess
  else
    s.handleConnectionFailure <|
      match code with
      | some code => if code ≠ 0 then s!"Bot exited with code {code}" else "Connection ended"
      | none => "Connection ended"

inductive Input where
  | connect
  | disconnect
  | restart
  | dispose
  | updateConfig (config : ClientRuntimeConfig)
  | sendCommand (command : String)
  | cleanSpawner
  | line (child : ℕ) (event : BotEvent)
  | close (child : ℕ) (code : Option ℤ)
  | processError (child : ℕ) (message : String)
  | stdinError (child : ℕ) (message : String)
  | fire (timer : TimerName) (handle : ℕ)
  /-- The clock reads `now`; pending timers fire by inputs of their own. -/
  | clock (now : ℤ)
  /-- The pipe of a controller is no longer writable. -/
  | stdinClosed (child : ℕ)
  /-- From now on creating a controller throws this message, or works. -/
  | spawning (error : Option String)
  deriving DecidableEq, Repr

def handle (s : Client) : Input → Client
  | .connect => s.connect
  | .disconnect => s.disconnect
  | .restart => s.restart
  | .dispose => s.dispose
  | .updateConfig config => s.updateConfig config
  | .sendCommand command => (s.sendCommand command).1
  | .cleanSpawner => s.cleanSpawner.1
  | .line child event => s.ifCurrent child (·.handleBotEvent event)
  | .close child code => s.ifCurrent child (·.onClose code)
  | .processError child message => s.ifCurrent child (·.handleConnectionFailure message)
  | .stdinError child message =>
      s.ifCurrent child (·.handleConnectionFailure s!"Bot input pipe failed: {message}")
  | .fire timer handle => s.fire timer handle
  | .clock now => { s with now := now }
  | .stdinClosed child => s.ifCurrent child fun s => { s with stdinWritable := false }
  | .spawning error => { s with spawnError := error }

def step (s : Client) (i : Input) : Client := { s with outbox := [] }.handle i

def init (config : ClientRuntimeConfig) : Client := { config := config }

end Client

end AfkClient
