import AfkClient.Library.Method
import AfkClient.Library.Text
import Mathlib.Algebra.Ring.Int.Defs
import Mathlib.Data.Finset.Card
import Mathlib.Data.Rat.Defs

/-! The automatic selling of one bot on its game thread: the window of unconfirmed
transfers, the pauses after a rejection, the controller's lease, and the game tick. The
game's own methods are points where a tick can be left by an exception. -/

namespace AfkClient.Native

open Re Text

/-! ### Texts -/

/-- The class of `.` in a pattern of the Java library. -/
def isJavaDot (c : Char) : Bool := c ∉ ['\n', '\r', '\u0085', '\u2028', '\u2029']

def javaSpace : Re := set fun c => c ∈ [' ', '\t', '\n', '\x0b', '\x0c', '\r']

/-- `text.replaceAll("§.", "")` -/
def withoutCodes : List Char → List Char
  | [] => []
  | [c] => [c]
  | c :: d :: rest =>
      if c = '§' ∧ isJavaDot d then withoutCodes rest else c :: withoutCodes (d :: rest)

/-- `text.trim()` of the Java library. -/
def javaTrim (text : List Char) : List Char :=
  ((text.dropWhile (· ≤ ' ')).reverse.dropWhile (· ≤ ' ')).reverse

def plainText (text : List Char) : List Char := javaTrim (withoutCodes text)

def serverPrefix : Re := opt (seqs [ilit "[HugoSMP]", many javaSpace])

def nativeSaleTitle (title : List Char) : Bool :=
  (seqs [bos, oneOf [ilit "Items verkaufen", ilit "Sell"], eos]).test (plainText title)

/-- A command that the plugin never sends. -/
def afkCommand (command : List Char) : Bool :=
  (seqs [bos, opt (lit "/"), opt (seq (some1 (set fun c => c ∉ [' ', ':', '/'])) (lit ":")),
    ilit "afk", opt (seq javaSpace (many (set isJavaDot))), eos]).test command

/-! ### Transfers -/

/-- What leaves a game tick before its end. -/
inductive Thrown where
  /-- The game or the settings library threw. -/
  | game
  | windowFull
  | slotVisited
  deriving DecidableEq, Repr

structure Transfer where
  slot : ℕ
  time : ℤ
  deriving DecidableEq, Repr

structure SellTransfers where
  sent : List Transfer := []
  /-- Positions in `sent`. -/
  acknowledged : Finset ℕ := ∅
  payouts : ℕ := 0
  deriving DecidableEq

namespace SellTransfers

def maxInFlight : ℕ := 16

def maxPerTick : ℕ := 8

def confirmed (x : SellTransfers) : ℕ := max x.payouts x.acknowledged.card

def inFlight (x : SellTransfers) : ℕ := x.sent.length - x.confirmed

def canSend (x : SellTransfers) : Bool := x.inFlight < maxInFlight

def send (x : SellTransfers) (slot : ℕ) (now : ℤ) : Except Thrown SellTransfers :=
  if ! x.canSend then .error .windowFull
  else if x.sent.any (·.slot = slot) then .error .slotVisited
  else .ok { x with sent := x.sent ++ [⟨slot, now⟩] }

def acknowledgeSlot (x : SellTransfers) (slot : ℕ) : SellTransfers :=
  match x.sent.findIdx? (·.slot = slot) with
  | some index => { x with acknowledged := insert index x.acknowledged }
  | none => x

def acknowledgePayout (x : SellTransfers) : SellTransfers :=
  { x with payouts := min x.sent.length (x.payouts + 1) }

def stalled (x : SellTransfers) (now : ℤ) : Bool :=
  match x.sent[x.confirmed]? with
  | some transfer => now - transfer.time ≥ 5000
  | none => false

end SellTransfers

/-! ### Pauses and the lease -/

structure SellRecovery where
  pausedUntil : ℤ := 0
  lastRejection : ℤ := -4611686018427387904
  failures : ℕ := 0
  deriving DecidableEq, Repr

namespace SellRecovery

def rejected (r : SellRecovery) (now : ℤ) : SellRecovery :=
  let r :=
    if now - r.lastRejection ≥ 1000 then
      { r with failures := min 5 (r.failures + 1), lastRejection := now }
    else r
  { r with pausedUntil := max r.pausedUntil (now + min 30000 (2000 * 2 ^ (r.failures - 1))) }

def confirmed (r : SellRecovery) : SellRecovery := { r with failures := 0 }

def paused (r : SellRecovery) (now : ℤ) : Bool := now < r.pausedUntil

def inventoryBlocked (message : List Char) : Bool :=
  (seqs [bos, serverPrefix,
    ilit "Du kannst dies nicht tun, weil dein Inventar gerade gespeichert oder geladen wird",
    opt (set (· ∈ ['.', '!'])), eos]).test (plainText message)

def payout (message : List Char) : Bool :=
  (seqs [bos, serverPrefix, lit "+$", digit, many (set fun c => c.isDigit || c ∈ ['.', ',']),
    opt (seq javaSpace (many (set isJavaDot))), eos]).test (plainText message)

end SellRecovery

namespace SellLease

def maxMillis : ℤ := 90000

/-- The bot's own entry of the deadlines. -/
def renew (deadline now : ℤ) : Option ℤ :=
  if deadline ≤ now then none else some (min deadline (now + maxMillis))

def valid (deadline : Option ℤ) (now : ℤ) : Bool := deadline.any (now < ·)

/-- `DEADLINES`, by the ids of the instance and the bot. -/
abbrev Deadlines (Uuid : Type) := Uuid × Uuid → Option ℤ

namespace Deadlines

variable {Uuid : Type} [DecidableEq Uuid]

/-- Every entry that has run out is removed first. -/
def renew (d : Deadlines Uuid) (key : Uuid × Uuid) (deadline now : ℤ) : Deadlines Uuid :=
  Function.update (fun k => (d k).filter (now < ·)) key (SellLease.renew deadline now)

def valid (d : Deadlines Uuid) (key : Uuid × Uuid) (now : ℤ) : Bool := SellLease.valid (d key) now

end Deadlines

end SellLease

/-! ### The game -/

/-- A container menu object of the game. -/
structure Menu where
  identity : ℕ
  containerId : ℤ
  deriving DecidableEq, Repr

inductive Screen where
  | container (title : List Char)
  | other
  deriving DecidableEq, Repr

structure Stack where
  item : String
  count : ℕ
  deriving DecidableEq, Repr

/-- A slot of a menu: whether it belongs to the player's inventory, and what is in it. -/
structure Slot where
  ofInventory : Bool
  active : Bool
  item : Option Stack
  deriving DecidableEq, Repr

structure Player where
  /-- Identity hash code. -/
  hash : ℤ
  containerMenu : Menu
  inventoryMenu : Menu
  deriving DecidableEq, Repr

/-- The client as the game thread sees it, at its latest clock reading. -/
structure Minecraft where
  clock : ℤ
  player : Option Player := none
  level : Option ℤ := none
  gameMode : Bool := false
  screen : Option Screen := none
  /-- The number of menu objects made so far. -/
  menus : ℕ := 0
  /-- Whether the content of the last menu opened has arrived. -/
  received : Bool := false
  deriving DecidableEq, Repr

def Minecraft.containerMenu (mc : Minecraft) : Option Menu := mc.player.map (·.containerMenu)

/-- The player's container is closed on the client. -/
def Minecraft.closeContainer (mc : Minecraft) : Minecraft :=
  { mc with
    player := mc.player.map fun p => { p with containerMenu := p.inventoryMenu }, screen := none }

/-- Vanilla's handling of an open-screen packet: a new menu object under a new screen. -/
def Minecraft.openScreen (mc : Minecraft) (containerId : ℤ) (title : List Char) : Minecraft :=
  match mc.player with
  | none => mc
  | some p =>
      { mc with
        player := some { p with containerMenu := ⟨mc.menus, containerId⟩ }
        screen := some (.container title), menus := mc.menus + 1, received := false }

/-! ### Settings -/

/-- An entry of the settings; of an array or object only what `getAsBoolean` yields. -/
inductive Element where
  | string (value : String)
  | number (value : ℤ)
  | bool (value : Bool)
  | composite (asBoolean : Option Bool)
  deriving DecidableEq, Repr

/-- The entries of the namespace `afk-service`. -/
abbrev Settings := String → Option Element

def Element.asString : Element → String
  | .string value => value
  | .number value => toString value
  | .bool value => toString value
  | .composite _ => ""

/-- `none` if `getAsBoolean` throws. -/
def Element.asBoolean : Element → Option Bool
  | .bool value => some value
  | .composite asBoolean => asBoolean
  | element => some (element.asString.toList.map (·.toLower) = "true".toList)

/-- `number(settings, key)` -/
def Settings.long (settings : Option Settings) (key : String) : ℤ :=
  match settings.bind (· key) with
  | some (.number value) => value
  | _ => 0

/-- What the getters of a parsed `native-auto-sell` entry yield; `none` where one throws. -/
structure SaleConfig where
  enabled : Option Bool
  intervalMs : Option ℤ
  command : Option String
  deriving DecidableEq, Repr

/-! ### The plugin -/

structure SaleState where
  config : String := ""
  command : List Char := "/sell".toList
  enabled : Bool := false
  waiting : Bool := false
  player : ℤ := 0
  level : ℤ := 0
  next : ℤ := 0
  requested : ℤ := 0
  interval : ℤ := 2000
  position : ℚ × ℚ × ℚ := (0, 0, 0)
  sellingMenu : Option Menu := none
  nextSlot : ℕ := 0
  contentMenu : ℤ := -1
  transfers : SellTransfers := {}
  beforeTransfer : List (ℕ × Stack) := []
  contentReady : Bool := false
  recovery : SellRecovery := {}
  deriving DecidableEq

/-- What is the case when the client sends a `QUICK_MOVE`. -/
structure Moment where
  sellingMenu : Option Menu
  containerMenu : Option Menu
  screen : Option Screen
  received : Bool
  slot : Slot
  /-- `sell-manual-until` is in the future. -/
  manual : Bool
  deriving DecidableEq, Repr

/-- What happened on the game thread, in its order. -/
inductive SaleEvent where
  /-- The server opened a menu. -/
  | opened (menu : Menu) (manual : Bool)
  | quickMove (menu : Menu) (index : ℕ) (moment : Moment)
  /-- One more transfer of the bound menu counts as confirmed. -/
  | credited (menu : Menu)
  | closed (menu : Menu) (manual : Bool)
  | command (text : List Char)
  | chat (text : List Char)
  /-- A tick ended with an exception. -/
  | failed (error : Thrown)
  deriving DecidableEq, Repr

/-- A bot of the plugin, as its game thread sees it. -/
structure Bot where
  mc : Minecraft
  lease : Option ℤ := none
  /-- The bot's entry of `STATES`. -/
  state : Option SaleState := none
  log : List SaleEvent := []
  deriving DecidableEq

namespace Bot

def st (b : Bot) : SaleState := b.state.getD {}

def edit (b : Bot) (f : SaleState → SaleState) : Bot := { b with state := some (f b.st) }

def record (b : Bot) (event : SaleEvent) : Bot := { b with log := b.log ++ [event] }

def elapse (b : Bot) (elapsed : ℕ) : Bot := { b with mc := { b.mc with clock := b.mc.clock + elapsed } }

def closeContainer (b : Bot) (manual : Bool) : Bot :=
  match b.mc.containerMenu with
  | some menu => { b.record (.closed menu manual) with mc := b.mc.closeContainer }
  | none => b

end Bot

def SaleState.bindMenu (st : SaleState) (menu : Menu) : SaleState :=
  { st with sellingMenu := some menu, nextSlot := 0, transfers := {}, beforeTransfer := [] }

def SaleState.unbindMenu (st : SaleState) : SaleState :=
  { st with transfers := {}, beforeTransfer := [], sellingMenu := none }

def SaleState.rejected (st : SaleState) (now : ℤ) : SaleState :=
  { st with recovery := st.recovery.rejected now }

/-- A game tick: what it reads, the time that passes in it, and after how many points the
game throws, if it does. -/
structure Tick where
  elapsed : ℕ
  settings : Option Settings
  position : ℚ × ℚ × ℚ
  /-- The slots of the current menu, each as it is when the tick visits it. -/
  slots : List Slot
  /-- The first 36 slots of the inventory. -/
  stock : List (Option Stack)
  beforeCancel : ℕ := 0
  beforeSecondCancel : ℕ := 0
  beforeCatch : ℕ := 0
  fault : Option ℕ := none

def Tick.manual (t : Tick) (now : ℤ) : Bool := Settings.long t.settings "sell-manual-until" > now

/-- The game thread in a tick, with the points left before the game throws. -/
structure Thread where
  bot : Bot
  fault : Option ℕ

abbrev Code := Method Thrown Thread

open Method (when)

/-- A point where the game may throw. -/
def call : Code Unit := do
  match (← get).fault with
  | none => pure ()
  | some 0 => throw .game
  | some (n + 1) => modify fun th => { th with fault := some n }

def change (f : Bot → Bot) : Code Unit := modify fun th => { th with bot := f th.bot }

def edit (f : SaleState → SaleState) : Code Unit := change (·.edit f)

def orThrow {α : Type} : Option α → Code α
  | some a => pure a
  | none => throw .game

def ofExcept {α : Type} : Except Thrown α → Code α
  | .ok a => pure a
  | .error e => throw e

def closeContainer (manual : Bool) : Code Unit := do
  call
  change (·.closeContainer manual)
  call

def cancel (manual : Bool) (elapsed : ℕ) : Code Unit := do
  let b := (← get).bot
  when (b.st.sellingMenu.isSome ∧ b.mc.containerMenu = b.st.sellingMenu) (closeContainer manual)
  edit (·.unbindMenu)
  change (·.elapse elapsed)
  let now := (← get).bot.mc.clock
  -- A request that still waits stays recognizable until three seconds have passed.
  when (now - b.st.requested ≥ 3000 ∨ b.st.sellingMenu.isSome) do
    edit fun st => { st with waiting := false }

/-- Reads a changed `native-auto-sell` entry; each getter may throw behind the ones before it. -/
def configure (gson : String → Option SaleConfig) (settings : Settings) (now : ℤ) : Code Unit := do
  let config := (settings "native-auto-sell").elim "" (·.asString)
  let current := (← get).bot.st.config
  when (config ≠ current) do
    edit fun st => { st with config, enabled := false, waiting := false, next := now }
    when (config ≠ "") do
      let json ← orThrow (gson config)
      let enabled ← orThrow json.enabled
      edit fun st => { st with enabled }
      let intervalMs ← orThrow json.intervalMs
      edit fun st => { st with interval := max 250 (min intervalMs 3600000) }
      let command ← orThrow json.command
      edit fun st => { st with command := javaTrim command.toList }

/-- Whether `b` is another player or level than before, or more than two blocks away. -/
def SaleState.moved (st : SaleState) (player level : ℤ) (position : ℚ × ℚ × ℚ) : Bool :=
  let (x, y, z) := position
  st.player ≠ player || st.level ≠ level ||
    (x - st.position.1) ^ 2 + (y - st.position.2.1) ^ 2 + (z - st.position.2.2) ^ 2 > 4

def relocate (t : Tick) (player level now : ℤ) : Code Unit := do
  let moved := (← get).bot.st.moved player level t.position
  edit fun st => { st with player, level, position := t.position }
  when moved do
    edit fun st => { st with next := now + 2000 }
    cancel (t.manual now) t.beforeCancel

def homePending (settings : Settings) : Code Bool :=
  match settings "sell-home-pending" with
  | some element => orThrow element.asBoolean
  | none => pure false

/-- Whether nothing may be sold now. -/
def blocked (settings : Settings) (now : ℤ) : Code Bool := do
  let b := (← get).bot
  if ! b.st.enabled || ! SellLease.valid b.lease now then pure true
  else
    let pending ← homePending settings
    let long := Settings.long (some settings)
    pure (pending || long "sell-manual-until" > now || b.st.recovery.paused now ||
      (now ≥ long "sell-pause-from" && now < long "sell-pause-until"))

/-- Where a tick goes on. -/
inductive Next where
  | leave
  | transfer (menu : Menu)
  | request
  deriving DecidableEq, Repr

def reject (t : Tick) (now : ℤ) : Code Next := do
  edit (·.rejected now)
  cancel (t.manual now) t.beforeSecondCancel
  pure .leave

/-- The container on the screen: whether it is the sale's, and ready for transfers. -/
def container (t : Tick) (now : ℤ) (menu : Menu) (title : List Char) : Code Next := do
  call
  let st := (← get).bot.st
  if ! nativeSaleTitle (plainText title) then pure .leave
  else if ! st.waiting && st.sellingMenu ≠ some menu then pure .leave
  else if now - st.requested ≥ 15000 then reject t now
  else
    when (st.sellingMenu ≠ some menu) (edit (·.bindMenu menu))
    let st := (← get).bot.st
    if st.contentMenu ≠ menu.containerId || ! st.contentReady then pure .leave
    else if st.transfers.stalled now then reject t now
    else pure (.transfer menu)

/-- The part of a tick in front of the transfers. -/
def approach (gson : String → Option SaleConfig) (t : Tick) : Code Next := do
  call
  let mc := (← get).bot.mc
  match mc.player, mc.level, mc.gameMode, t.settings with
  | some player, some level, true, some settings =>
      edit id
      call
      configure gson settings mc.clock
      relocate t player.hash level mc.clock
      if ← blocked settings mc.clock then
        cancel (t.manual mc.clock) t.beforeSecondCancel
        edit fun st => { st with next := max st.next st.recovery.pausedUntil }
        pure .leave
      else
        let mc' := (← get).bot.mc
        match mc'.screen, mc'.containerMenu with
        | some (.container title), some menu => container t mc.clock menu title
        | _, _ => pure .request
  | _, _, _, _ => pure .leave

def quickMove (menu : Menu) (index : ℕ) (slot : Slot) (stack : Stack) (now : ℤ) (manual : Bool) :
    Code Unit := do
  edit fun st =>
    { st with beforeTransfer := (index, stack) :: st.beforeTransfer.filter (·.1 ≠ index) }
  let transfers ← ofExcept ((← get).bot.st.transfers.send index now)
  edit fun st => { st with transfers }
  call
  change fun b => b.record (.quickMove menu index {
    sellingMenu := b.st.sellingMenu, containerMenu := b.mc.containerMenu, screen := b.mc.screen
    received := b.mc.received, slot, manual })
  call

/-- Moves the cursor over a slot, and says whether its stack was moved. -/
def visit (menu : Menu) (now : ℤ) (manual : Bool) (index : ℕ) (slot : Slot) : Code Bool := do
  edit fun st => { st with nextSlot := index + 1 }
  call
  match slot.ofInventory && slot.active, slot.item with
  | true, some stack =>
      quickMove menu index slot stack now manual
      pure true
  | _, _ => pure false

/-- The loop over the slots from `index` on, `sent` of which were moved in this tick. -/
def transfer (menu : Menu) (now : ℤ) (manual : Bool) : ℕ → List Slot → ℕ → Code Unit
  | _, [], _ => pure ()
  | index, slot :: rest, sent => do
      let b := (← get).bot
      when (b.mc.containerMenu = some menu ∧ b.st.transfers.canSend ∧
          sent < SellTransfers.maxPerTick) do
        let moved ← visit menu now manual index slot
        transfer menu now manual (index + 1) rest (sent + moved.toNat)

/-- Closes the sale once every slot was visited and every transfer confirmed. -/
def complete (t : Tick) (menu : Menu) (manual : Bool) : Code Next := do
  let b := (← get).bot
  if b.st.nextSlot < t.slots.length ∨ 0 < b.st.transfers.inFlight then pure .leave
  else
    when (b.mc.containerMenu = some menu) (closeContainer manual)
    edit fun st => { st.unbindMenu with waiting := false }
    pure .request

/-- Sends the command that opens the next sale. -/
def sell (t : Tick) (now : ℤ) : Code Unit := do
  let st := (← get).bot.st
  if now < st.next ∨ (t.stock.take 36).all (·.isNone) then pure ()
  else if st.command = [] || afkCommand st.command then pure ()
  else
    edit fun st => { st with requested := now, waiting := true, next := now + st.interval }
    call
    change (·.record (match st.command with
      | '/' :: rest => .command rest
      | command => .chat command))
    call

def request (t : Tick) (now : ℤ) : Code Unit := do
  edit fun st => { st with sellingMenu := none }
  let b := (← get).bot
  if b.mc.screen.isSome then pure ()
  else if b.st.waiting then
    if now - b.st.requested < 3000 then pure ()
    else
      -- The server opened no menu within three seconds.
      edit fun st => { st.rejected now with waiting := false }
      edit fun st => { st with next := max st.next st.recovery.pausedUntil }
      sell t now
  else sell t now

def tickSale (gson : String → Option SaleConfig) (t : Tick) : Code Unit := do
  let now := (← get).bot.mc.clock
  match ← approach gson t with
  | .leave => pure ()
  | .request => request t now
  | .transfer menu =>
      let nextSlot := (← get).bot.st.nextSlot
      transfer menu now (t.manual now) nextSlot (t.slots.drop nextSlot) 0
      match ← complete t menu (t.manual now) with
      | .request => request t now
      | _ => pure ()

namespace Bot

def caught (b : Bot) (elapsed : ℕ) (error : Thrown) : Bot :=
  let b := (b.elapse elapsed).record (.failed error)
  match b.state with
  | none => b
  | some st =>
      { b with
        state := some { st.rejected b.mc.clock with transfers := {}, beforeTransfer := [] } }

def tick (gson : String → Option SaleConfig) (b : Bot) (t : Tick) : Bot :=
  let (th, error) := (tickSale gson t).outcome ⟨b.elapse t.elapsed, t.fault⟩
  error.elim th.bot (th.bot.caught t.beforeCatch)

/-- The game opens a menu, and the plugin is told of it. -/
def opened (b : Bot) (containerId : ℤ) (title : List Char) (elapsed : ℕ)
    (settings : Option Settings) : Bot :=
  let b := b.elapse elapsed
  if b.mc.player.isNone then b
  else
    let menu : Menu := ⟨b.mc.menus, containerId⟩
    let now := b.mc.clock
    let manual : Bool := Settings.long settings "sell-manual-until" > now
    let b := { b.record (.opened menu manual) with mc := b.mc.openScreen containerId title }
    match b.state with
    | none => b
    | some st =>
        let st := { st with contentMenu := containerId, contentReady := false }
        if st.requested > 0 ∧ now - st.requested < 15000 ∧ nativeSaleTitle title then
          if st.waiting then { b with state := some (st.bindMenu menu) }
          else if ! manual then { b.closeContainer manual with state := some st }
          else { b with state := some st }
        else { b with state := some st }

/-- Confirms transfers of the bound menu. -/
def credit (b : Bot) (menu : Menu) (f : SellTransfers → SellTransfers) : Bot :=
  let transfers := f b.st.transfers
  { b.edit fun st => { st with transfers } with
    log := b.log ++
      List.replicate (transfers.confirmed - b.st.transfers.confirmed) (.credited menu) }

/-- The slots that differ from what they held before their transfer. -/
def changedSlots (st : SaleState) (items : List (Option Stack)) : List ℕ :=
  (st.beforeTransfer.filter fun (index, stack) =>
    index < items.length && items[index]? ≠ some (some stack)).map (·.1)

/-- A packet with the content of a menu (`slot` is -1) or of one slot; `items` is what the
slots of the bound menu hold now. -/
def inventoryAck (b : Bot) (menu slot : ℤ) (items : List (Option Stack)) : Bot :=
  let b :=
    if slot = -1 ∧ b.mc.containerMenu.any (·.containerId = menu) then
      { b with mc := { b.mc with received := true } }
    else b
  match b.state with
  | none => b
  | some st =>
      let b := if menu = st.contentMenu ∧ slot = -1 then b.edit ({ · with contentReady := true }) else b
      match st.sellingMenu with
      | none => b
      | some owned =>
          if menu = owned.containerId then
            if 0 ≤ slot then b.credit owned (·.acknowledgeSlot slot.toNat)
            else b.credit owned fun x => (changedSlots st items).foldl (·.acknowledgeSlot ·) x
          else b

def inventoryMessage (b : Bot) (message : List Char) (elapsed : ℕ) : Bot :=
  let b := b.elapse elapsed
  if b.state.isSome ∧ SellRecovery.inventoryBlocked message then b.edit (·.rejected b.mc.clock) else b

def serverMessage (b : Bot) (message : List Char) (elapsed : ℕ) : Bot :=
  let b := b.inventoryMessage message elapsed
  if b.state.isSome ∧ SellRecovery.payout message then
    let b := b.edit fun st => { st with recovery := st.recovery.confirmed }
    match b.st.sellingMenu with
    | none => b
    | some owned => b.credit owned (·.acknowledgePayout)
  else b

def disconnected (b : Bot) : Bot := { b with state := none }

/-- The menu that is bound weakly is collected once the player has left it. -/
def collected (b : Bot) : Bot :=
  match b.state with
  | some st =>
      if b.mc.containerMenu = st.sellingMenu then b
      else { b with state := some { st with sellingMenu := none } }
  | none => b

end Bot

inductive Input where
  | tick (t : Tick)
  | opened (containerId : ℤ) (title : List Char) (elapsed : ℕ) (settings : Option Settings)
  | inventoryAck (menu slot : ℤ) (items : List (Option Stack))
  | inventoryMessage (message : List Char) (elapsed : ℕ)
  | serverMessage (message : List Char) (elapsed : ℕ)
  | disconnected
  /-- The server or another user of the client closes the container. -/
  | closes
  /-- Another screen than a container's is shown, or none. -/
  | shows (screen : Bool)
  /-- A new player in a level. -/
  | joins (hash level : ℤ)
  | leaves
  | collected
  | renewed (deadline : ℤ) (elapsed : ℕ)

def Bot.step (gson : String → Option SaleConfig) (b : Bot) : Input → Bot
  | .tick t => b.tick gson t
  | .opened containerId title elapsed settings => b.opened containerId title elapsed settings
  | .inventoryAck menu slot items => b.inventoryAck menu slot items
  | .inventoryMessage message elapsed => b.inventoryMessage message elapsed
  | .serverMessage message elapsed => b.serverMessage message elapsed
  | .disconnected => b.disconnected
  | .closes => { b with mc := b.mc.closeContainer }
  | .shows screen => { b with mc := { b.mc with screen := if screen then some .other else none } }
  | .joins hash level =>
      { b with mc := { b.mc with
        player := some ⟨hash, ⟨b.mc.menus, 0⟩, ⟨b.mc.menus, 0⟩⟩, level := some level, gameMode := true
        screen := none, menus := b.mc.menus + 1 } }
  | .leaves => { b with mc := { b.mc with player := none, level := none, screen := none } }
  | .collected => b.collected
  | .renewed deadline elapsed =>
      let b := b.elapse elapsed
      { b with lease := SellLease.renew deadline b.mc.clock }

def Bot.init (clock : ℤ) : Bot := { mc := { clock } }

/-! ### All bots -/

/-- The bots of the instances under one clock, and their leases. -/
structure Server (Uuid : Type) where
  clock : ℤ
  deadlines : SellLease.Deadlines Uuid := fun _ => none
  bots : Uuid × Uuid → Bot

namespace Server

variable {Uuid : Type} [DecidableEq Uuid]

/-- The bot at this time, with its lease as it is now. -/
def current (s : Server Uuid) (key : Uuid × Uuid) : Bot :=
  { s.bots key with mc := { (s.bots key).mc with clock := s.clock }, lease := s.deadlines key }

/-- One bot takes a step. -/
def step (gson : String → Option SaleConfig) (s : Server Uuid) : (Uuid × Uuid) × Input → Server Uuid
  | (key, input) =>
      let b := (s.current key).step gson input
      { clock := b.mc.clock
        deadlines := match input with
          | .renewed deadline _ => s.deadlines.renew key deadline b.mc.clock
          | _ => s.deadlines
        bots := Function.update s.bots key b }

def init (clock : ℤ) : Server Uuid := { clock, bots := fun _ => .init clock }

end Server

end AfkClient.Native
