import AfkClient.Model.Behaviors

/-! A running session: the behaviors of one bot, the gateway that turns their calls into
remote calls, and the queue of control messages. A gateway method runs at once up to its
first remote call; the service applies such a call at some moment before it answers. -/

namespace AfkClient

/-! ### Remote calls -/

structure SellConfig where
  enabled : Bool
  intervalMs : ℚ
  command : String
  deriving DecidableEq, Repr

/-- An entry of the bot's settings, in the namespace `afk-service`. -/
inductive Setting where
  | autoButton (value : AutoButton)
  | crouchEnabled (value : Bool)
  | nativeAutoSell (value : SellConfig)
  | sellManualUntil (value : ℤ)
  | sellHomePending (value : Bool)
  | sellPauseFrom (value : ℤ)
  | sellPauseUntil (value : ℤ)
  | sellLeaseUntil (value : ℤ)
  | sneakCheck (value : ℕ)
  deriving DecidableEq, Repr

/-- The settings the bot's game thread reads. -/
structure NativeSettings where
  autoButton : AutoButton
  crouchEnabled : Bool
  nativeAutoSell : SellConfig
  sellManualUntil : ℤ := 0
  sellHomePending : Bool
  sellPauseFrom : ℤ
  sellPauseUntil : ℤ
  sellLeaseUntil : ℤ := 0
  sneakCheck : ℕ := 0
  deriving DecidableEq, Repr

def NativeSettings.write (n : NativeSettings) : Setting → NativeSettings
  | .autoButton value => { n with autoButton := value }
  | .crouchEnabled value => { n with crouchEnabled := value }
  | .nativeAutoSell value => { n with nativeAutoSell := value }
  | .sellManualUntil value => { n with sellManualUntil := value }
  | .sellHomePending value => { n with sellHomePending := value }
  | .sellPauseFrom value => { n with sellPauseFrom := value }
  | .sellPauseUntil value => { n with sellPauseUntil := value }
  | .sellLeaseUntil value => { n with sellLeaseUntil := value }
  | .sneakCheck value => { n with sneakCheck := value }

/-- Remote calls of the gateway; a click without a slot is the one for all player slots. -/
inductive Rpc where
  | updateBotConfigEntry (entry : Setting)
  | sendChat (message : String)
  | clickInventorySlot (menu : String) (slot : Option ℕ) (action : ClickAction)
  | closeContainer (menu : String)
  | openSpawner (crouch : Bool)
  | writePrivateJson (home : String)
  | respawn
  deriving DecidableEq, Repr

/-- An action is answered by the error it ended with, if it was not completed. -/
abbrev Rpc.Reply : Rpc → Type
  | .sendChat _ => Option String
  | .clickInventorySlot .. => Option String
  | .openSpawner _ => Bool
  | _ => Unit

def Rpc.apply (n : NativeSettings) : Rpc → NativeSettings
  | .updateBotConfigEntry entry => n.write entry
  | _ => n

/-! ### The gateway -/

/-- What the gateway remembers between its calls. -/
structure Gateway where
  homePending : Bool
  heldButton : AutoButton
  heldCrouch : Bool
  nativeSellConfig : SellConfig
  nativeSellEnabled : Bool := false
  nextSellLease : ℤ := 0
  sellLeaseBusy : Bool := false
  sellSuspendedUntil : ℤ := 0
  sneakCheck : ℕ := 0
  inventory : Option GameInventory := none
  letterOrNumber : Char → Bool := Char.isAlphanum
  now : ℤ := 0

/-- Calls of the session: those of the behaviors and those it makes itself. -/
inductive SessionCall where
  | game (call : GameCall)
  | nativeSellPause (afterMs resumeMs : ℤ)
  | renewSellLease
  | respawn
  deriving DecidableEq, Repr

abbrev SessionCall.Reply : SessionCall → Type
  | .game call => call.Reply
  | _ => Unit

def BehaviorConfig.button (c : BehaviorConfig) : AutoButton := c.autoButton.getD .off

def BehaviorConfig.crouch (c : BehaviorConfig) : Bool := c.crouchEnabled.getD false

def BehaviorConfig.sellConfig (c : BehaviorConfig) : SellConfig where
  enabled := c.autosellEnabled.getD false
  intervalMs := max 250 (c.autosellIntervalSeconds.getD 60 * 1000)
  command := .ofList (Text.trim ((c.autosellCommand.filter (· ≠ "")).getD "/sell").toList)

namespace Gateway

abbrev Code (α : Type) := Task Gateway Rpc Rpc.Reply Failure α

/-- `await` of a remote call. -/
abbrev rpc (call : Rpc) : Code call.Reply := .perform call

def setting (entry : Setting) : Code Unit := rpc (.updateBotConfigEntry entry)

def renewSellLease : Code Unit := do
  let g ← .read
  setting (.sellLeaseUntil (g.now + 90_000))
  .update fun g => { g with nextSellLease := g.now + 5000 }

/-- The renewal that runs beside the scheduler. -/
def renewSellLeaseAside : Code Unit := do
  .update fun g => { g with sellLeaseBusy := true, nextSellLease := g.now + 5000 }
  renewSellLease.orCatch fun _ => .update fun g => { g with nextSellLease := g.now + 1000 }
  .update fun g => { g with sellLeaseBusy := false }

/-- The window a pause covers when it is applied at `now`, or none at all. -/
def pauseWindow (now afterMs resumeMs : ℤ) : ℤ × ℤ :=
  if resumeMs = 0 then (0, 0) else (now + afterMs, now + resumeMs)

def nativeSellPause (afterMs resumeMs : ℤ) : Code Unit := do
  let g ← .read
  setting (.sellPauseFrom (pauseWindow g.now afterMs resumeMs).1)
  setting (.sellPauseUntil (pauseWindow g.now afterMs resumeMs).2)

/-- A setting is written only if it differs from what the gateway wrote last. -/
def writeChanged (changed : Gateway → Bool) (entry : Setting) (store : Gateway → Gateway) :
    Code Unit := do
  let g ← .read
  .when (changed g) do
    setting entry
    .update store

def recoveringHome (pending : Bool) : Code Unit :=
  writeChanged (fun g => g.homePending ≠ pending) (.sellHomePending pending)
    fun g => { g with homePending := pending }

def suspendSell (duration : ℤ) : Code Unit := do
  let g ← .read
  let expires := g.now + duration
  .when (g.nativeSellEnabled && g.sellSuspendedUntil < expires) do
    setting (.sellManualUntil expires)
    .update fun g => { g with sellSuspendedUntil := expires }

def held (cfg : BehaviorConfig) : Code Unit := do
  writeChanged (fun g => cfg.button ≠ g.heldButton) (.autoButton cfg.button)
    fun g => { g with heldButton := cfg.button }
  writeChanged (fun g => cfg.crouch ≠ g.heldCrouch) (.crouchEnabled cfg.crouch)
    fun g => { g with heldCrouch := cfg.crouch }
  .update fun g => { g with nativeSellEnabled := cfg.autosellEnabled.getD false }
  writeChanged (fun g => cfg.sellConfig ≠ g.nativeSellConfig) (.nativeAutoSell cfg.sellConfig)
    fun g => { g with nativeSellConfig := cfg.sellConfig }
  let g ← .read
  .when (g.nativeSellEnabled && g.nextSellLease ≤ g.now) renewSellLease

def sneak : Code Unit := do
  .update fun g => { g with sneakCheck := g.sneakCheck + 1 }
  let g ← .read
  setting (.sneakCheck g.sneakCheck)

def rememberHome (home : String) : Code Unit := do
  let g ← .read
  rpc (.writePrivateJson (if validHome g.letterOrNumber home then home else ""))

/-- Throws the error an action ended with. -/
def completed (fallback : String) : Option String → Code Unit
  | none => pure ()
  | some error => .fail ⟨if error = "" then fallback else error, false⟩

def chat (message : String) : Code Unit := do
  let result ← rpc (.sendChat message)
  completed "Command wurde nicht ausgeführt" result

def readInventory : Code GameInventory := do
  let g ← .read
  match g.inventory with
  | some inventory => pure inventory
  | none => .fail ⟨"Inventar wird noch synchronisiert", false⟩

def clickSlot (menu : String) (slot : Option ℕ) (action : ClickAction) : Code Unit := do
  let result ← rpc (.clickInventorySlot menu slot action)
  completed "Inventaraktion abgelehnt" result

/-- The server can replace a menu before the next frame; the replacement stays open. -/
def close (menu : String) : Code Unit :=
  Task.orCatch (fun error => if error.aborted then pure () else .fail error)
    (rpc (.closeContainer menu))

def ofGameCall : (c : GameCall) → Code c.Reply
  | .held cfg => held cfg
  | .sneak => sneak
  | .chat text => chat text
  | .inventory => readInventory
  | .click menu slot action => clickSlot menu (some slot) action
  | .transferAll menu => clickSlot menu none .transfer
  | .close menu => close menu
  | .openSpawner crouch => rpc (.openSpawner crouch)
  | .suspendSell duration => suspendSell duration
  | .recoveringHome pending => recoveringHome pending
  | .rememberHome home => rememberHome home

def ofCall : (c : SessionCall) → Code c.Reply
  | .game call => ofGameCall call
  | .nativeSellPause afterMs resumeMs => nativeSellPause afterMs resumeMs
  | .renewSellLease => renewSellLeaseAside
  | .respawn => rpc .respawn

end Gateway

/-- All optional methods are there. -/
def sessionGateway : GameGateway where
  nativeAutosell := true
  suspendSell := true
  recoveringHome := true
  rememberHome := true
  transferAll := true

/-! ### Session code -/

/-- The control messages a session reads from its queue. -/
inductive SessionCommand where
  | configure (config : BehaviorConfig)
  | pauseAutosell (afterMs resumeMs : ℤ)
  | checkCrouch
  | chat (text : Option String)
  | cleanSpawner
  | readSellMultipliers
  deriving DecidableEq, Repr

structure SessionVars where
  behaviors : Behaviors
  online : Bool := false
  busy : Bool := false
  queued : List SessionCommand := []
  lastWarning : ℤ := 0

def SessionVars.on (s : SessionVars) (f : Behaviors → Behaviors) : SessionVars :=
  { s with behaviors := f s.behaviors }

/-- How a task of the session ends; a scheduler pass goes on after each message. -/
inductive Ending where
  | again | finished | failed
  deriving DecidableEq, Repr

namespace Session

abbrev Code (α : Type) := Task SessionVars SessionCall SessionCall.Reply Failure α

/-- `await` of a call. -/
abbrev await (c : SessionCall) : Code c.Reply := .perform c

/-- Code of the behaviors, as a part of the session's code. -/
def behaving {α : Type} (t : Behaviors.Code α) : Code α :=
  t.embed (·.behaviors) (fun b s => { s with behaviors := b }) .game (fun _ reply => reply)

def spawnedBody : Code Unit := do
  .update fun s => { s with online := true }
  (behaving Behaviors.spawned).orCatch fun error => do
    .update fun s => { s.on Behaviors.joining with online := false }
    .fail error
  .update fun s => s.on (·.emit .spawn)

/-- A sign that the bot is in the world, from the event stream or the health check. -/
def spawned : Code Ending := do
  let s ← .read
  .when (!s.online) spawnedBody
  pure .finished

def handleCommand : SessionCommand → Code Unit
  | .configure config => behaving (Behaviors.configure config)
  | .pauseAutosell afterMs resumeMs => do
      .update fun s => s.on (·.pause afterMs resumeMs)
      await (.nativeSellPause afterMs resumeMs)
  | .checkCrouch => .update fun s => s.on Behaviors.checkSneak
  | .chat text => .update fun s => s.on (·.enqueue .chat text)
  | .cleanSpawner => .update fun s => s.on (·.enqueue .cleanSpawner none)
  | .readSellMultipliers => .update fun s => s.on (·.enqueue .readSellMultipliers none)

def takeMessage : Code Ending := do
  let s ← .read
  match s.queued with
  | command :: rest => do
      .update fun s => { s with queued := rest }
      handleCommand command
      pure .again
  | [] => do
      behaving Behaviors.tick
      pure .finished

/-- One round of the scheduler: a message, or the tick behind the last one. -/
def schedulerRound : Code Ending :=
  takeMessage.orCatch fun error => do
    .update fun s =>
      if 30_000 ≤ s.behaviors.now - s.lastWarning then
        { s.on (·.emit (.warning error.message)) with lastWarning := s.behaviors.now }
      else s
    pure .failed

def renewLease : Code Ending := do
  await .renewSellLease
  pure .finished

def respawn : Code Ending := do
  await .respawn
  pure .finished

end Session

/-! ### Steps -/

inductive Job where
  | scheduler | spawned | aside
  deriving DecidableEq, Repr

/-- A task about to enter a call of the gateway. -/
structure Calling where
  job : Job
  call : SessionCall
  next : Except Failure call.Reply → Session.Code Ending

/-- A remote call on its way, inside a call of the gateway. -/
structure InFlight extends Calling where
  rpc : Rpc
  applied : Bool := false
  resume : Except Failure rpc.Reply → Gateway.Code call.Reply

/-- What runs at the moment: nothing else does until it pauses. -/
inductive Current where
  | calling (c : Calling)
  | again

structure Session where
  vars : SessionVars
  gateway : Gateway
  settings : NativeSettings
  current : Option Current := none
  inFlight : List InFlight := []
  /-- The last messages of their kinds that were queued. -/
  lastConfigure : BehaviorConfig
  lastPause : Option (ℤ × ℤ) := none
  /-- A write for that message failed, and nothing has caught up on it since. -/
  configureFailed : Bool := false
  pauseFailed : Bool := false
  /-- The last scheduler pass reached the end of its tick. -/
  passed : Bool := false

namespace Session

def isConfigure : SessionCommand → Bool
  | .configure _ => true
  | _ => false

def isPause : SessionCommand → Bool
  | .pauseAutosell .. => true
  | _ => false

/-- A task is over; the scheduler is free again when its pass is. -/
def finish (s : Session) (job : Job) : Except Failure Ending → Session
  | .ok .again => { s with current := some .again }
  | result =>
      { s with
        current := none
        vars := { s.vars with busy := s.vars.busy && job ≠ .scheduler }
        passed := s.passed || (job = .scheduler && result = .ok .finished) }

/-- Runs session code up to its next call or its end. -/
def settle (s : Session) (job : Job) (t : Code Ending) : Session :=
  match t.advance s.vars with
  | (vars, .calling call next) => { s with vars := vars, current := some (.calling ⟨job, call, next⟩) }
  | (vars, .ended result) => { s with vars := vars }.finish job result

/-- Notes that a method of the gateway has returned: `held` is then through with its writes,
whichever task called it. -/
def noteReturn (s : Session) (c : SessionCall) (result : Except Failure c.Reply) : Session :=
  match c, result with
  | .game (.held _), .ok _ => { s with configureFailed := false }
  | _, _ => s

/-- Runs gateway code up to its next remote call, or returns to the session's code. -/
def enter (s : Session) (c : Calling) (t : Gateway.Code c.call.Reply) : Session :=
  match t.advance s.gateway with
  | (gateway, .calling rpc resume) =>
      { s with
        gateway := gateway, current := none
        inFlight := { c with rpc := rpc, resume := resume } :: s.inFlight }
  | (gateway, .ended result) =>
      ({ s with gateway := gateway }.noteReturn c.call result).settle c.job (c.next result)

def proceed (s : Session) : Session :=
  match s.current with
  | some (.calling c) => s.enter c (Gateway.ofCall c.call)
  | some .again => s.settle .scheduler schedulerRound
  | none => s

/-- The service applies a remote call. -/
def applyRpc (s : Session) (n : ℕ) : Session :=
  match s.inFlight[n]? with
  | some f =>
      if f.applied then s
      else
        { s with
          settings := f.rpc.apply s.settings
          inFlight := s.inFlight.set n { f with applied := true } }
  | none => s

/-- Notes that a write for the last message of its kind failed. -/
def noteFailure (s : Session) (f : InFlight) : Session :=
  match f.job, f.call, f.rpc with
  | .scheduler, .game (.held _), .updateBotConfigEntry (.sellLeaseUntil _) => s
  | .scheduler, .game (.held _), _ =>
      { s with configureFailed := s.configureFailed || !s.vars.queued.any isConfigure }
  | .scheduler, .nativeSellPause .., _ =>
      { s with pauseFailed := s.pauseFailed || !s.vars.queued.any isPause }
  | _, _, _ => s

/-- A remote call is answered. One that succeeds has been applied by then. -/
def reply (s : Session) (n : ℕ) (answers : (r : Rpc) → Except Failure r.Reply) : Session :=
  match s.inFlight[n]? with
  | some f =>
      let s := match answers f.rpc with
        | .ok _ => s.applyRpc n
        | .error _ => s.noteFailure f
      { s with inFlight := s.inFlight.eraseIdx n }.enter f.toCalling (f.resume (answers f.rpc))
  | none => s

def receive (s : Session) (command : SessionCommand) : Session :=
  let s := { s with vars := { s.vars with queued := s.vars.queued ++ [command] } }
  match command with
  | .configure config => { s with lastConfigure := config, configureFailed := false }
  | .pauseAutosell afterMs resumeMs =>
      { s with lastPause := some (afterMs, resumeMs), pauseFailed := false }
  | _ => s

def onVars (s : Session) (f : SessionVars → SessionVars) : Session := { s with vars := f s.vars }

inductive Input where
  /-- The running task enters its call, or the scheduler takes the next message. -/
  | proceed
  /-- A control message arrives. -/
  | line (command : SessionCommand)
  /-- The scheduler's timer fires, or it is woken. -/
  | step
  | renewSellLease
  /-- The bot is seen in the world. -/
  | spawned
  | died
  | respawned
  /-- The position jumped. -/
  | moved
  | chat (sender : Option String) (message : String)
  | inventory (inventory : Option GameInventory)
  | apply (n : ℕ)
  | reply (n : ℕ) (answers : (r : Rpc) → Except Failure r.Reply)
  | clock (now : ℤ)

def event (s : Session) : Input → Session
  | .proceed => s
  | .line command => s.receive command
  | .step =>
      if s.vars.busy then s
      else { s with vars := { s.vars with busy := true }, passed := false }.settle .scheduler schedulerRound
  | .renewSellLease =>
      if s.gateway.nativeSellEnabled ∧ ¬ s.gateway.sellLeaseBusy ∧ s.gateway.nextSellLease ≤ s.gateway.now then
        s.settle .aside renewLease
      else s
  | .spawned => s.settle .spawned spawned
  | .died =>
      { s with gateway := { s.gateway with inventory := none } }.onVars
        (fun v => { v.on Behaviors.joining with online := false }) |>.settle .aside respawn
  | .respawned => (s.onVars fun v => { v with online := false }).settle .spawned spawned
  | .moved => s.onVars (·.on Behaviors.transition)
  | .chat sender message => s.onVars (·.on fun b => b.onChat sender message)
  | .inventory inventory => { s with gateway := { s.gateway with inventory := inventory } }
  | .apply n => s.applyRpc n
  | .reply n answers => s.reply n answers
  | .clock now =>
      { s with gateway := { s.gateway with now := now } }.onVars (·.on fun b => { b with now := now })

/-- Nothing happens in between while code runs. -/
def step (s : Session) (i : Input) : Session :=
  match i with
  | .proceed => s.proceed
  | i => if s.current.isSome then s else s.event i

/-! ### Start -/

/-- What a session is started with. -/
structure StartConfig where
  config : BehaviorConfig
  pauseAfterMs : ℤ := 0
  pauseResumeMs : ℤ := 0
  letterOrNumber : Char → Bool := Char.isAlphanum
  /-- The clock when the settings are prepared, and when the behaviors are created. -/
  configuredAt : ℤ := 0
  startedAt : ℤ := 0

def StartConfig.homePending (c : StartConfig) : Bool :=
  c.config.autoReturnHome ≠ some false && (c.config.recoveryHome.any (· ≠ ""))

/-- The session behind its sign-in: the account's settings are replaced at once, and the
gateway starts with what they say. -/
def init (c : StartConfig) : Session where
  vars := {
    behaviors :=
      { Behaviors.init c.config sessionGateway c.letterOrNumber with now := c.startedAt }.pause
        c.pauseAfterMs c.pauseResumeMs }
  gateway := {
    homePending := c.homePending, heldButton := c.config.button, heldCrouch := c.config.crouch
    nativeSellConfig := c.config.sellConfig
    nativeSellEnabled := c.config.autosellEnabled.getD false
    nextSellLease := c.startedAt + 5000, letterOrNumber := c.letterOrNumber, now := c.startedAt }
  settings :=
    let window := Gateway.pauseWindow c.configuredAt c.pauseAfterMs c.pauseResumeMs
    { autoButton := c.config.button, crouchEnabled := c.config.crouch
      nativeAutoSell := c.config.sellConfig, sellHomePending := c.homePending
      sellPauseFrom := window.1, sellPauseUntil := window.2 }
  lastConfigure := c.config

end Session

end AfkClient
