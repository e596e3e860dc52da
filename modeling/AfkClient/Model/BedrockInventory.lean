import AfkClient.Library.Dictionary
import AfkClient.Model.BedrockBehaviors
import AfkClient.Model.SellMultipliers

/-! The menus of a Bedrock bot and the transfers into them (`bedrock-bot/inventory.ts`). Of an item
there are the fields that are read and the texts of its tooltip; positions are told by their key.
The details of a warning are left out. Times are exact milliseconds. -/

namespace AfkClient.BedrockInventory

open Text
open BedrockBehaviors (removeCodes)

structure BedrockItem where
  networkId : ℤ := 0
  count : Option ℕ := none
  stackId : Option ℤ := none
  name : String := ""
  lore : List String := []
  deriving DecidableEq

inductive WindowId
  | number (n : ℤ)
  | name (text : String)
  deriving DecidableEq

/-- An array; a slot that was never written is a hole. -/
abbrev Slots := List (Option BedrockItem)

structure Container where
  id : WindowId
  type : String
  items : Option Slots
  owned : Bool
  position : Option String
  manual : Bool
  title : Option String

structure Pending where
  id : ℤ
  source : ℕ
  destination : ℕ
  item : BedrockItem
  sentAt : ℚ

structure MultiplierScan where
  deadline : ℚ
  windowId : Option WindowId

/-- An item moved from the player into a menu. -/
structure Transfer where
  requestId : ℤ
  authoritative : Bool
  menu : WindowId
  source : ℕ
  destination : ℕ
  item : BedrockItem
  count : ℕ
  deriving DecidableEq

inductive Output
  | transfer (transfer : Transfer) (sent : Bool)
  | close (id : WindowId) (type : String)
  | sellMultipliers (entries : List (Option SellMultiplier))
  | behaviorLog (reason : String)
  | warning

def SELL_MENU_TIMEOUT_MS : ℚ := 500

def empty : BedrockItem := {}

def present (item : BedrockItem) : Bool := item.networkId ≠ 0 && 0 < item.count.getD 0

/-- The item in a slot, if there is one. -/
def presentAt (items : Slots) (slot : ℕ) : Option BedrockItem :=
  (items[slot]?.bind id).filter present

/-- `items[slot] = item` -/
def setSlot (items : Slots) (slot : ℕ) (item : BedrockItem) : Slots :=
  if slot < items.length then items.set slot (some item)
  else items ++ List.replicate (slot - items.length) none ++ [some item]

def sellTitle (title : String) : Bool :=
  toLowerCase (trim (removeCodes title.toList)) ∈ ["items verkaufen".toList, "sell".toList]

def playerWindow (id : WindowId) : Bool := id = .number 0 || id = .name "inventory"

def multiplierTitle (title : Option String) : Bool :=
  toLowerCase (((title.map tooltipText).getD []).filter (! isSpace ·)) = "sellmulti".toList

def multiplierTooltip (item : BedrockItem) : String × List String :=
  if present item then (item.name, item.lore) else ("", [])

def multiplierItem (item : BedrockItem) : Option SellMultiplier :=
  readMultiplier (multiplierTooltip item).1 (multiplierTooltip item).2

/-- `items.slice(0, 9).map(multiplierItem)`; holes stay holes. -/
def topRow (items : Slots) : List (Option (Option SellMultiplier)) :=
  (items.take 9).map fun slot => slot.map multiplierItem

/-- The rows of a chest. -/
def chest (items : Slots) : Bool :=
  9 ≤ items.length && items.length ≤ 54 && items.length % 9 = 0

/-! ### State -/

structure Inventory where
  player : Option Slots := none
  container : Option Container := none
  requestedAt : Option ℚ := none
  targets : Option (List ℕ) := none
  pending : Option Pending := none
  nextRequestId : ℤ := -1
  openedAt : ℚ := 0
  manualGuardUntil : ℚ := 0
  cancelledSellUntil : ℚ := 0
  titles : Dictionary String String := Dictionary.empty
  lastFailureAt : Option ℚ := none
  needsFullPlayerContent : Bool := false
  hotbarSlot : ℕ := 0
  multiplierScan : Option MultiplierScan := none
  outbox : List Output := []

namespace Inventory

def busy (s : Inventory) : Bool := s.requestedAt.isSome || s.container.any (·.owned)

def blocked (s : Inventory) : Bool := s.container.any (! ·.owned)

def synchronized (s : Inventory) : Bool := !s.needsFullPlayerContent

def readingMultipliers (s : Inventory) : Bool := s.multiplierScan.isSome

def mouseBlocked (s : Inventory) : Bool := s.container.isSome || s.needsFullPlayerContent

def mouseHand (s : Inventory) : Option (ℕ × BedrockItem) :=
  if s.needsFullPlayerContent then none
  else (s.player.bind fun player => player[s.hotbarSlot]?.bind id).map (s.hotbarSlot, ·)

def emit (output : Output) (s : Inventory) : Inventory := { s with outbox := s.outbox ++ [output] }

def cancelMultiplierScan (s : Inventory) : Inventory :=
  { (if s.multiplierScan.isSome then s.emit .warning else s) with multiplierScan := none }

def release (s : Inventory) : Inventory :=
  { s with requestedAt := none, targets := none, pending := none }

def close (s : Inventory) : Inventory :=
  let s := match s.container with
    | some menu => s.emit (.close menu.id menu.type)
    | none => s
  { s with container := none }.release

def onEquipment (selectedSlot : ℤ) (item : BedrockItem) (s : Inventory) : Inventory :=
  if selectedSlot < 0 ∨ 8 < selectedSlot then s
  else
    let slot := selectedSlot.toNat
    { s with
      hotbarSlot := slot
      player := if s.needsFullPlayerContent then s.player else s.player.map (setSlot · slot item) }

def requestMultipliers (now : ℚ) (s : Inventory) : Inventory :=
  { s with manualGuardUntil := 0, multiplierScan := some ⟨now + 10_000, none⟩ }

def request (now : ℚ) (s : Inventory) : Inventory :=
  { s with cancelledSellUntil := 0, requestedAt := some now, targets := none }

def reset (s : Inventory) : Inventory :=
  { s.cancelMultiplierScan with
    titles := Dictionary.empty
    manualGuardUntil := 0
    cancelledSellUntil := 0
    player := none
    container := none
    requestedAt := none
    hotbarSlot := 0
    targets := none
    pending := none }

/-- The open menu is the one that is read for multipliers. -/
def scanOwned (s : Inventory) : Bool :=
  s.container.any fun menu =>
    (s.multiplierScan.any fun scan => scan.windowId = some menu.id) &&
      (multiplierTitle menu.title ||
        ((menu.items.getD []).take 9).any fun slot =>
          slot.any fun item => (multiplierItem item).isSome)

/-- The next menu belongs to the user. -/
def guardManual (now : ℚ) (manualSell : Bool) (s : Inventory) : Inventory :=
  { s with
    manualGuardUntil := now + 5_000
    cancelledSellUntil :=
      if manualSell then 0 else if s.busy then now + 10_000 else s.cancelledSellUntil }

def interrupt (now : ℚ) (closeForeign manualSell : Bool) (s : Inventory) : Inventory :=
  let scanOwned := s.scanOwned
  let s := s.cancelMultiplierScan
  let s := if closeForeign then s.guardManual now manualSell else s
  let s := if s.container.any fun menu => menu.owned || closeForeign || scanOwned then s.close else s
  s.release

/-- A lost packet makes every stack that is known stale. -/
def invalidateAfterDecodeFailure (now : ℚ) (s : Inventory) : Inventory :=
  let s := { s with needsFullPlayerContent := true, player := none }.interrupt now false false
  { s with
    container := s.container.map fun menu => { menu with items := none }
    cancelledSellUntil := now + 10_000 }

def clearMenuTitles (s : Inventory) : Inventory := { s with titles := Dictionary.empty }

def recentRequest (now : ℚ) (s : Inventory) : Bool := s.requestedAt.any (now - · ≤ 5_000)

/-! ### Packets -/

def onOpen (now : ℚ) (id : WindowId) (type : String) (position : Option String) (s : Inventory) :
    Inventory :=
  let manual := decide (now < s.manualGuardUntil)
  let title := position.bind s.titles.get?
  let owned := !manual && type = "container" && (s.recentRequest now || title.any sellTitle)
  let s := { s with
    titles := (position.map s.titles.delete).getD s.titles
    container := some ⟨id, type, none, owned, position, manual, title⟩
    multiplierScan :=
      if type = "container" then s.multiplierScan.map fun scan => { scan with windowId := some id }
      else s.multiplierScan
    openedAt := now
    targets := none
    pending := none }
  if title.any sellTitle && now < s.cancelledSellUntil then s.close else s

/-- The title of a menu, which can come before or after the menu. -/
def onBlockEntity (now : ℚ) (position title : Option String) (s : Inventory) : Inventory :=
  match position, title with
  | some position, some title =>
      let titles := (s.titles.delete position).set position title
      let s := { s with titles := titles.evict 17 }
      match s.container with
      | some menu =>
          if menu.position = some position then
            let s := { s with
              container := some { menu with
                title := some title
                owned := menu.type = "container" && !menu.manual &&
                  (sellTitle title || s.recentRequest now) }
              titles := s.titles.delete position }
            if sellTitle title && now < s.cancelledSellUntil then s.close else s
          else s
      | none => s
  | _, _ => s

def onClose (id : WindowId) (s : Inventory) : Inventory :=
  if s.container.any (·.id = id) then
    let s := if s.multiplierScan.any (·.windowId = some id) then s.cancelMultiplierScan else s
    { s with container := none }.release
  else s

/-- Without answers of the server, the slots tell that a transfer is done. -/
def confirmLegacyTransfer (authoritative : Bool) (s : Inventory) : Inventory :=
  match s.pending with
  | some pending =>
      if !authoritative && (presentAt (s.player.getD []) pending.source).isNone &&
          (presentAt ((s.container.bind (·.items)).getD []) pending.destination).isSome then
        { s with pending := none }
      else s
  | none => s

def onContent (authoritative : Bool) (id : WindowId) (input : Option (List BedrockItem))
    (s : Inventory) : Inventory :=
  match input with
  | none => s
  | some input =>
      if playerWindow id then
        if s.needsFullPlayerContent ∧ input.length < 36 then s
        else confirmLegacyTransfer authoritative
          { s with player := some (input.map some), needsFullPlayerContent := false }
      else confirmLegacyTransfer authoritative
        { s with
          container := s.container.map fun menu =>
            if menu.id = id then { menu with items := some (input.map some) } else menu }

def onSlot (authoritative : Bool) (id : WindowId) (slot : ℤ) (item : BedrockItem) (s : Inventory) :
    Inventory :=
  if slot < 0 ∨ 256 ≤ slot then s
  else if playerWindow id then
    if s.needsFullPlayerContent then s
    else confirmLegacyTransfer authoritative
      { s with
        player := some
          (setSlot (s.player.getD (List.replicate 36 (some BedrockInventory.empty))) slot.toNat item) }
  else confirmLegacyTransfer authoritative
    { s with
      container := s.container.map fun menu =>
        if menu.id = id then { menu with items := menu.items.map (setSlot · slot.toNat item) }
        else menu }

structure ResponseSlot where
  slot : ℤ
  count : ℕ
  itemStackId : ℤ

structure Response where
  requestId : ℤ
  status : String
  /-- The changed slots of each kind of container. -/
  containers : List (String × List ResponseSlot)

def logFailure (now : ℚ) (reason : String) (s : Inventory) : Inventory :=
  if s.lastFailureAt.all fun last => 30_000 ≤ now - last then
    { s with lastFailureAt := some now }.emit (.behaviorLog reason)
  else s

def fail (now : ℚ) (reason : String) (s : Inventory) : Inventory :=
  (s.logFailure now reason).interrupt now false false

/-- The slots of one container as a response has them. -/
def updateSlots (item : BedrockItem) (slots : List ResponseSlot) (items : Slots) : Slots :=
  slots.foldl (fun items slot =>
    if slot.slot < 0 ∨ (items.length : ℤ) ≤ slot.slot then items
    else
      items.set slot.slot.toNat (some
        (if slot.count = 0 then BedrockInventory.empty
        else { item with count := some slot.count, stackId := some slot.itemStackId }))) items

def updateContainer (item : BedrockItem) (s : Inventory) (update : String × List ResponseSlot) :
    Inventory :=
  if update.1 ∈ ["inventory", "hotbar", "hotbar_and_inventory"] then
    { s with player := s.player.map (updateSlots item update.2) }
  else if update.1 = "container" then
    { s with
      container := s.container.map fun menu =>
        { menu with items := menu.items.map (updateSlots item update.2) } }
  else s

def respond (now : ℚ) (s : Inventory) (response : Response) : Inventory :=
  match s.pending with
  | some pending =>
      if pending.id ≠ response.requestId then s
      else if response.status ≠ "ok" then
        { s with pending := none }.logFailure now
          "Server hat einen Item-Transfer abgelehnt; überspringe diesen Slot"
      else { response.containers.foldl (updateContainer pending.item) s with pending := none }
  | none => s

def onResponse (now : ℚ) (responses : List Response) (s : Inventory) : Inventory :=
  responses.foldl (respond now) s

/-! ### Ticks -/

/-- The moment of a tick, the clock, who keeps the inventory, and whether a packet goes out. -/
structure Tick where
  now : ℚ
  clock : ℚ
  authoritative : Bool
  sent : Bool

/-- One item of the player goes into a slot of the menu. -/
def send (t : Tick) (menu : WindowId) (source destination : ℕ) (item : BedrockItem) (s : Inventory) :
    Inventory :=
  let transfer : Transfer :=
    ⟨s.nextRequestId, t.authoritative, menu, source, destination, item, min 255 (item.count.getD 0)⟩
  let s := { s with nextRequestId := s.nextRequestId - 1 }
  if t.authoritative && !item.stackId.any (0 < ·) then
    s.fail t.clock "Stack-ID fehlt; warte auf Inventarsynchronisation"
  else
    let s := s.emit (.transfer transfer t.sent)
    if t.sent then
      { s with pending := some ⟨transfer.requestId, source, destination, item, t.now⟩ }
    else s.fail t.clock "Item-Transfer konnte nicht gesendet werden"

/-- The next target that holds an item; without one the menu is done. -/
def transferNext (t : Tick) (menu : WindowId) (player items : Slots) : List ℕ → Inventory → Inventory
  | [], s => { s with targets := some [] }.close
  | source :: targets, s =>
      match presentAt player source with
      | none => transferNext t menu player items targets s
      | some item =>
          let s := { s with targets := some targets }
          match items.findIdx? fun slot => !slot.any present with
          | none => s.close
          | some destination => s.send t menu source destination item

def initialTargets (player : Slots) : List ℕ :=
  (List.range (min 36 player.length)).filter fun slot => (presentAt player slot).isSome

def tick (t : Tick) (s : Inventory) : Inventory :=
  if s.needsFullPlayerContent || !s.busy then s
  else
    match s.container.filter (·.owned) with
    | none =>
        if s.requestedAt.any (SELL_MENU_TIMEOUT_MS ≤ t.now - ·) then s.interrupt t.clock false false
        else s
    | some menu =>
        if 10_000 ≤ t.now - s.openedAt then
          s.fail t.clock "Verkaufsmenü/Inventar nicht vollständig bestätigt (10s Timeout)"
        else
          match s.pending with
          | some pending =>
              if 2_000 ≤ t.now - pending.sentAt then
                s.fail t.clock "Item-Transfer nicht bestätigt (2s Timeout)"
              else s
          | none =>
              match menu.items, s.player with
              | some items, some player =>
                  s.transferNext t menu.id player items (s.targets.getD (initialTargets player))
              | _, _ => s

def tickMultipliers (now : ℚ) (s : Inventory) : Inventory :=
  match s.multiplierScan with
  | none => s
  | some scan =>
      let menu := s.container.filter fun menu =>
        scan.windowId = some menu.id && menu.type = "container"
      let entries := ((menu.bind (·.items)).filter chest).elim [] topRow
      if entries.length = 9 && entries.all fun entry => entry.all Option.isSome then
        { s with multiplierScan := none }.close.emit (.sellMultipliers (entries.map Option.join))
      else if scan.deadline ≤ now then
        let s := { s with multiplierScan := none }
        let owned := menu.any fun menu =>
          multiplierTitle menu.title || entries.any fun entry => entry.any Option.isSome
        (if owned then s.close else s).emit .warning
      else s

end Inventory

/-! ### Calls -/

inductive Call
  | onEquipment (selectedSlot : ℤ) (item : BedrockItem)
  | requestMultipliers (now : ℚ)
  | request (now : ℚ)
  | reset
  | invalidateAfterDecodeFailure (now : ℚ)
  | clearMenuTitles
  | interrupt (now : ℚ) (closeForeign manualSell : Bool)
  | onOpen (now : ℚ) (id : WindowId) (type : String) (position : Option String)
  | onBlockEntity (now : ℚ) (position title : Option String)
  | onClose (id : WindowId)
  | onContent (authoritative : Bool) (id : WindowId) (input : Option (List BedrockItem))
  | onSlot (authoritative : Bool) (id : WindowId) (slot : ℤ) (item : BedrockItem)
  | onResponse (now : ℚ) (responses : List Inventory.Response)
  | tick (tick : Inventory.Tick)
  | tickMultipliers (now : ℚ)

def step (s : Inventory) : Call → Inventory
  | .onEquipment selectedSlot item => s.onEquipment selectedSlot item
  | .requestMultipliers now => s.requestMultipliers now
  | .request now => s.request now
  | .reset => s.reset
  | .invalidateAfterDecodeFailure now => s.invalidateAfterDecodeFailure now
  | .clearMenuTitles => s.clearMenuTitles
  | .interrupt now closeForeign manualSell => s.interrupt now closeForeign manualSell
  | .onOpen now id type position => s.onOpen now id type position
  | .onBlockEntity now position title => s.onBlockEntity now position title
  | .onClose id => s.onClose id
  | .onContent authoritative id input => s.onContent authoritative id input
  | .onSlot authoritative id slot item => s.onSlot authoritative id slot item
  | .onResponse now responses => s.onResponse now responses
  | .tick tick => s.tick tick
  | .tickMultipliers now => s.tickMultipliers now

end AfkClient.BedrockInventory
