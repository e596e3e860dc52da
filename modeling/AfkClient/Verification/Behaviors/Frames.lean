import AfkClient.Model.Behaviors

/-! What sales, menu tasks, key checks and saved homes leave alone: the settings, the
world membership, the return home and the restart pause. They neither set the held
keys nor touch the home gate. -/

namespace AfkClient.Behaviors

open AfkClient.Task

attribute [local irreducible] Re.test Re.capture

/-- The variables that decide what the native settings must say. -/
structure Gate where
  cfg : BehaviorConfig
  game : GameGateway
  online : Bool
  returningHome : Bool
  homeGatePending : Option Bool
  pauseStart : ℤ
  pauseEnd : ℤ
  now : ℤ

def gate (s : Behaviors) : Gate :=
  ⟨s.cfg, s.game, s.online, s.returningHome, s.homeGatePending, s.pauseStart, s.pauseEnd, s.now⟩

/-- Calls that neither set the held keys nor write the home gate. -/
def Plain : GameCall → Prop
  | .held _ => False
  | .recoveringHome _ => False
  | _ => True

/-- The task leaves the gate alone. -/
abbrev Aloof {α : Type} (t : Code α) : Prop := t.Within gate Plain

/-! ### Methods without an await -/

@[simp] theorem gate_emit (s : Behaviors) (event : BotEvent) : gate (s.emit event) = gate s := rfl

@[simp] theorem gate_earnCredits (s : Behaviors) (now : ℤ) : gate (s.earnCredits now) = gate s := by
  simp only [earnCredits]
  split_ifs <;> rfl

@[simp] theorem gate_scheduleSneak (s : Behaviors) : gate s.scheduleSneak = gate s := rfl

@[simp] theorem gate_checkSneak (s : Behaviors) : gate s.checkSneak = gate s := by
  unfold checkSneak
  split <;> rfl

@[simp] theorem gate_runSneakChecks (s : Behaviors) (now : ℤ) :
    gate (s.runSneakChecks now) = gate s := by
  have h := gate_checkSneak s
  simp only [gate, Gate.mk.injEq] at h
  simp only [runSneakChecks, gate]
  split <;> simp [h]

@[simp] theorem gate_enqueue (s : Behaviors) (type : CommandType) (text : Option String) :
    gate (s.enqueue type text) = gate s := by
  simp only [enqueue]
  split_ifs <;> rfl

@[simp] theorem gate_transition (s : Behaviors) : gate s.transition = gate s := rfl

/-! ### Menus

Sales and menu tasks keep to themselves: they change nothing but their own variables. -/

/-- The variables without those of sales and menu tasks. -/
def menusAside (s : Behaviors) : Behaviors :=
  { s with sell := none, foreground := none, nextSell := 0, lastFailure := none, nextId := 0, outbox := [] }

/-- Calls about the menu that is open. -/
def MenuCall : GameCall → Prop
  | .inventory | .click .. | .transferAll _ | .close _ => True
  | _ => False

/-- The task works in menus only. -/
abbrev InMenus {α : Type} (t : Code α) : Prop := t.Within menusAside MenuCall

/-- The variables without those of menu tasks. -/
def foregroundAside (s : Behaviors) : Behaviors :=
  { s with foreground := none, nextId := 0, outbox := [] }

/-- Calls about the menu that is open, apart from transfers. -/
def ForegroundCall : GameCall → Prop
  | .inventory | .close _ => True
  | .click _ _ action => action ≠ .transfer
  | _ => False

/-- The task works for menu tasks only. -/
abbrev InForeground {α : Type} (t : Code α) : Prop := t.Within foregroundAside ForegroundCall

theorem InForeground.inMenus {α : Type} {t : Code α} (h : InForeground t) : InMenus t := by
  refine h.mono (fun s s' hs => ?_) fun c hc => ?_
  · exact (congrArg menusAside hs : s.foregroundAside.menusAside = s'.foregroundAside.menusAside)
  · cases c <;> trivial

theorem emitting_inForeground (event : BotEvent) : InForeground (emitting event) :=
  within_update.mpr fun _ => rfl

theorem emitting_inMenus (event : BotEvent) : InMenus (emitting event) :=
  (emitting_inForeground event).inMenus

theorem closeOwned_inForeground (menu : String) : InForeground (closeOwned menu) :=
  .bind (within_perform.mpr trivial) fun _ => .when _ (within_perform.mpr trivial)

theorem closeOwned_inMenus (menu : String) : InMenus (closeOwned menu) :=
  (closeOwned_inForeground menu).inMenus

theorem cancelSell_inMenus : InMenus cancelSell := by
  refine .bind within_read fun s => .bind (within_update.mpr fun _ => rfl) fun _ => ?_
  cases s.sell with
  | none => exact within_pure ()
  | some sale => exact .when _ (closeOwned_inMenus sale.menu)

theorem applySell_inMenus (config : BehaviorConfig) (changed : Bool) :
    InMenus (applySell config changed) :=
  .bind (.when _ cancelSell_inMenus) fun _ => .when _ (within_update.mpr fun _ => rfl)

theorem failSell_inMenus (reason : String) : InMenus (failSell reason) := by
  refine .bind cancelSell_inMenus fun _ => within_update.mpr fun s => ?_
  dsimp only
  split <;> rfl

theorem updateSell_inMenus (id : ℕ) (f : Behaviors → Sell → Sell) :
    InMenus (.update fun s => s.updateSell id (f s)) := within_update.mpr fun _ => rfl

theorem sendTransfer_inMenus (id : ℕ) (transfer : Transfer) {call : Code Unit} (h : InMenus call) :
    InMenus (sendTransfer id transfer call) := by
  refine .bind (updateSell_inMenus id _) fun _ => ?_
  refine .orCatch (.bind h fun _ => updateSell_inMenus id _) fun error => ?_
  exact .bind within_read fun _ => .when _ (failSell_inMenus _)

theorem transferNext_inMenus (id : ℕ) (targets : List ℕ) (inventory : GameInventory) (now : ℤ) :
    InMenus (transferNext id targets inventory now) := by
  refine .bind within_read fun s => ?_
  split
  · refine .bind (updateSell_inMenus id _) fun _ => ?_
    split
    · exact cancelSell_inMenus
    · exact sendTransfer_inMenus _ _ (within_perform.mpr trivial)
  · cases targets with
    | nil => exact cancelSell_inMenus
    | cons target targets =>
        refine .bind (updateSell_inMenus id _) fun _ => ?_
        split
        · exact within_pure ()
        · exact sendTransfer_inMenus _ _ (within_perform.mpr trivial)

theorem advanceSale_inMenus (sale : Sell) (opened : ℤ) (inventory : GameInventory) (now : ℤ) :
    InMenus (advanceSale sale opened inventory now) := by
  refine .bind (updateSell_inMenus sale.id _) fun _ => .when _ ?_
  refine .bind (updateSell_inMenus sale.id _) fun _ => ?_
  dsimp only
  split
  · exact .when _ (failSell_inMenus _)
  · exact .bind (updateSell_inMenus sale.id _) fun _ => transferNext_inMenus _ _ _ _

theorem continueSale_inMenus (sale : Sell) (inventory : GameInventory) (now : ℤ) :
    InMenus (continueSale sale inventory now) := by
  unfold continueSale
  split_ifs
  · exact failSell_inMenus _
  · exact failSell_inMenus _
  · exact .when _ (within_update.mpr fun _ => rfl)
  · exact within_update.mpr fun _ => rfl
  · exact advanceSale_inMenus _ _ _ _
  · exact advanceSale_inMenus _ _ _ _

theorem setForeground_inForeground (task : ℕ → ℤ → Foreground) : InForeground (setForeground task) :=
  within_update.mpr fun _ => rfl

theorem setForeground_inMenus (task : ℕ → ℤ → Foreground) : InMenus (setForeground task) :=
  (setForeground_inForeground task).inMenus

theorem endForeground_inForeground : InForeground endForeground := within_update.mpr fun _ => rfl

theorem scanMultipliers_inForeground (inventory : GameInventory) : InForeground (scanMultipliers inventory) :=
  .when _ (.bind (within_perform.mpr trivial) fun _ =>
    .bind endForeground_inForeground fun _ => emitting_inForeground _)

theorem updateForeground_inForeground (id : ℕ) (f : Behaviors → Foreground → Foreground) :
    InForeground (.update fun s => s.updateForeground id (f s)) := within_update.mpr fun _ => rfl

theorem sendClick_inForeground (id : ℕ) (click : Click) {call : Code Unit} (h : InForeground call) :
    InForeground (sendClick id click call) := .bind (updateForeground_inForeground id _) fun _ => h

theorem clickSpawner_inForeground (task : Foreground) (view : SpawnerView) (stock : List GameSlot)
    (inventory : GameInventory) (now : ℤ) : InForeground (clickSpawner task view stock inventory now) := by
  have hstamp (_ : Unit) : InForeground (.update fun s : Behaviors => s.updateForeground task.id
      fun task => { task with
        pending := task.pending.map fun p => { p with sentAt := s.now }, next := s.now + 400 }) :=
    updateForeground_inForeground task.id _
  refine .bind within_read fun s => ?_
  split
  · split
    · exact updateForeground_inForeground task.id fun _ task => { task with phase := .sell }
    · exact .bind (within_perform.mpr trivial) fun _ =>
        .bind endForeground_inForeground fun _ => emitting_inForeground _
  · split
    · split
      · exact .bind (sendClick_inForeground _ _ (within_perform.mpr nofun)) hstamp
      · exact .bind (within_pure ()) hstamp
    · split
      · exact .bind (sendClick_inForeground _ _ (within_perform.mpr nofun)) hstamp
      · exact .bind (within_pure ()) hstamp

theorem tickSpawner_inForeground (task : Foreground) (opened : ℤ) (inventory : GameInventory) (now : ℤ) :
    InForeground (tickSpawner task opened inventory now) := by
  refine .bind within_read fun s => .when _ ?_
  dsimp only
  split
  · exact .when _ (.bind (closeOwned_inForeground _) fun _ =>
      .bind endForeground_inForeground fun _ => emitting_inForeground _)
  · exact .bind (updateForeground_inForeground task.id _) fun _ => clickSpawner_inForeground _ _ _ _ _

theorem advanceForeground_inForeground (task : Foreground) (inventory : GameInventory) (now : ℤ) :
    InForeground (advanceForeground task inventory now) := by
  unfold advanceForeground
  split
  · exact .bind (.when _ (closeOwned_inForeground _)) fun _ =>
      .bind endForeground_inForeground fun _ => emitting_inForeground _
  split
  · exact .when _ endForeground_inForeground
  split
  · exact within_pure ()
  split
  · exact endForeground_inForeground
  refine .bind (updateForeground_inForeground task.id _) fun _ => ?_
  cases task.kind with
  | multipliers => exact scanMultipliers_inForeground _
  | spawner => exact tickSpawner_inForeground _ _ _ _

theorem tickForeground_inForeground (now : ℤ) : InForeground (tickForeground now) := by
  refine .bind within_read fun s => ?_
  split
  · exact within_pure ()
  refine .when _ (.bind (within_perform.mpr trivial) fun inventory => .bind within_read fun t => ?_)
  split
  · exact .when _ (advanceForeground_inForeground _ _ _)
  · exact within_pure ()

theorem tickForeground_inMenus (now : ℤ) : InMenus (tickForeground now) :=
  (tickForeground_inForeground now).inMenus

/-! ### Tasks -/

theorem InMenus.aloof {α : Type} {t : Code α} (h : InMenus t) : Aloof t := by
  refine h.mono (fun s s' hs => ?_) fun c hc => ?_
  · exact (congrArg gate hs : gate s.menusAside = gate s'.menusAside)
  · cases c <;> trivial

theorem await_aloof {c : GameCall} (h : Plain c) : Aloof (await c) := within_perform.mpr h

theorem applySell_aloof (config : BehaviorConfig) (changed : Bool) : Aloof (applySell config changed) :=
  (applySell_inMenus config changed).aloof

theorem creditReady_aloof (now : ℤ) : Aloof (creditReady now) :=
  .bind (within_update.mpr fun s => gate_earnCredits s now) fun _ =>
    .bind within_read fun _ => within_pure _

theorem dispatch_aloof (text : String) (automatic : Bool) : Aloof (dispatch text automatic) := by
  unfold dispatch
  split
  · exact .bind (emitting_inMenus _).aloof fun _ => within_fail _
  · exact .bind (await_aloof trivial) fun _ => .when _ (within_update.mpr fun _ => rfl)

theorem openMenu_inMenus (type : CommandType) : InMenus (openMenu type) := by
  refine .bind within_read fun s => .orCatch (within_perform.mpr trivial) fun error => ?_
  split
  · exact within_pure _
  · exact within_fail _

theorem readMultipliers_aloof (generation : ℕ) (menu : String) :
    Aloof (readMultipliers generation menu) :=
  .bind (dispatch_aloof _ _) fun _ => .bind within_read fun _ =>
    .when _ (setForeground_inMenus _).aloof

theorem cleanSpawner_aloof (generation : ℕ) (menu : String) :
    Aloof (cleanSpawner generation menu) := by
  refine .bind within_read fun s => .bind (await_aloof trivial) fun opened => ?_
  split
  · exact .bind within_read fun _ => .when _ (setForeground_inMenus _).aloof
  · exact (emitting_inMenus _).aloof

theorem suspendSell_aloof (durationMs : ℤ) : Aloof (suspendSell durationMs) :=
  .bind within_read fun _ => .when _ (await_aloof trivial)

theorem startSale_aloof (generation : ℕ) (now : ℤ) : Aloof (startSale generation now) := by
  refine .bind within_read fun s => ?_
  generalize s.sellCommand = command
  refine .bind (within_update.mpr fun t => rfl) fun _ => ?_
  refine .bind (.orCatch (dispatch_aloof _ _) fun error => ?_) fun _ => ?_
  · refine .bind (within_update.mpr fun t => ?_) fun _ => within_fail _
    split <;> rfl
  · exact .bind within_read fun t => .when _ (within_update.mpr fun t => rfl)

theorem tickSell_aloof (now : ℤ) : Aloof (tickSell now) := by
  refine .bind within_read fun s => .when _ ?_
  refine .bind (await_aloof trivial) fun inventory => .bind within_read fun t => .when _ ?_
  split
  · exact (continueSale_inMenus _ _ _).aloof
  split
  · exact .when _ (.bind (await_aloof trivial) fun _ => within_update.mpr fun _ => rfl)
  · exact .when _ (startSale_aloof _ _)

theorem settleSavedHome_aloof : Aloof settleSavedHome := by
  refine .bind within_read fun s => ?_
  split
  · refine .bind (.when _ (await_aloof trivial)) fun _ => within_update.mpr fun s => ?_
    split <;> rfl
  · exact within_pure ()

theorem reassertSneak_aloof (now : ℤ) : Aloof (reassertSneak now) := by
  refine .bind (within_update.mpr fun s => gate_runSneakChecks s now) fun _ => ?_
  refine .bind within_read fun s => .when _ (.orCatch ?_ fun _ => within_update.mpr fun _ => rfl)
  exact .bind (await_aloof trivial) fun _ => within_update.mpr fun _ => rfl

theorem returnHome_aloof (now : ℤ) : Aloof (returnHome now) := by
  refine .bind (within_update.mpr fun _ => rfl) fun _ => .bind within_read fun s => ?_
  refine .orCatch (.bind (dispatch_aloof _ _) fun _ => within_update.mpr fun _ => rfl) fun error => ?_
  refine within_update.mpr fun s => ?_
  split <;> rfl

theorem tickAutomation_aloof (now : ℤ) : Aloof (tickAutomation now) := by
  refine .bind within_read fun s => ?_
  split
  · exact cancelSell_inMenus.aloof
  split
  · exact within_pure ()
  split
  · exact (tickForeground_inMenus now).aloof
  split
  · exact .when _ (.bind (creditReady_aloof now) fun _ => .when _ (returnHome_aloof now))
  · exact .when _ (tickSell_aloof now)

/-! ### Typed commands

A typed command may give up the return home, and a tick retries the home gate. Neither
sets the held keys or changes what they depend on. -/

/-- The settings and the pause. -/
structure Pinned where
  cfg : BehaviorConfig
  pauseStart : ℤ
  pauseEnd : ℤ
  now : ℤ

def pinned (s : Behaviors) : Pinned := ⟨s.cfg, s.pauseStart, s.pauseEnd, s.now⟩

theorem pinned_of_gate {s t : Behaviors} (h : gate s = gate t) : pinned s = pinned t := by
  simp only [gate, Gate.mk.injEq] at h
  simp only [pinned, h]

theorem pinned_checkSneak (s : Behaviors) : pinned s.checkSneak = pinned s :=
  pinned_of_gate (gate_checkSneak s)

theorem pinned_enqueue (s : Behaviors) (type : CommandType) (text : Option String) :
    pinned (s.enqueue type text) = pinned s := pinned_of_gate (gate_enqueue s type text)

def NotHeld : GameCall → Prop
  | .held _ => False
  | _ => True

/-- The task leaves the settings and the pause alone. -/
abbrev Pins {α : Type} (t : Code α) : Prop := t.Within pinned NotHeld

theorem Aloof.pins {α : Type} {t : Code α} (h : Aloof t) : Pins t := by
  refine h.mono (fun s s' => pinned_of_gate) fun c hc => ?_
  cases c <;> trivial

theorem recoveringHome_pins (pending : Bool) : Pins (recoveringHome pending) :=
  .bind within_read fun _ => .when _ (within_perform.mpr trivial)

theorem requestReturn_pins : Pins requestReturn :=
  .bind (within_update.mpr fun _ => rfl) fun _ => .bind within_read fun _ => recoveringHome_pins _

theorem settleHomeGate_pins : Pins settleHomeGate := by
  refine .bind within_read fun s => ?_
  split
  · exact .bind (recoveringHome_pins _) fun _ => within_update.mpr fun _ => rfl
  · exact within_pure ()

theorem navigate_pins (text : String) : Pins (navigate text) :=
  .bind (within_update.mpr fun _ => rfl) fun _ => .bind (recoveringHome_pins false) fun _ =>
    .when _ (within_update.mpr fun _ => rfl)

theorem typeCommand_pins (text : String) : Pins (typeCommand text) := by
  refine .bind (within_update.mpr fun s => ?_) fun _ => .bind (.when _ (navigate_pins text)) fun _ => ?_
  · split <;> rfl
  · refine .bind (dispatch_aloof _ _).pins fun _ => .bind (within_update.mpr fun _ => rfl) fun _ => ?_
    exact .bind (.when _ (within_update.mpr fun _ => rfl)) fun _ => (emitting_inMenus _).aloof.pins

theorem runCommand_pins (command : Command) : Pins (runCommand command) := by
  refine .bind (suspendSell_aloof 5000).pins fun _ => .bind within_read fun s => ?_
  refine .bind (within_update.mpr fun _ => rfl) fun _ => ?_
  refine .bind (openMenu_inMenus _).aloof.pins fun inventory => ?_
  refine .bind (.when _ (within_perform.mpr trivial)) fun _ => ?_
  refine .bind (within_update.mpr fun _ => rfl) fun _ => ?_
  cases command.type with
  | readSellMultipliers => exact (readMultipliers_aloof _ _).pins
  | cleanSpawner => exact (cleanSpawner_aloof _ _).pins
  | chat =>
      dsimp only
      split
      · exact typeCommand_pins _
      · exact within_pure ()

theorem takeCommand_pins (command : Command) (now : ℤ) : Pins (takeCommand command now) :=
  .bind (creditReady_aloof now).pins fun _ => .when _ (.bind (within_update.mpr fun _ => rfl)
    fun _ => .orCatch (runCommand_pins command) fun _ => (emitting_inMenus _).aloof.pins)

theorem tickTasks_pins (now : ℤ) : Pins (tickTasks now) := by
  refine .bind settleSavedHome_aloof.pins fun _ => .bind within_read fun s => .when _ ?_
  refine .bind (reassertSneak_aloof now).pins fun _ => .bind within_read fun s => ?_
  split
  · exact takeCommand_pins _ now
  · exact (tickAutomation_aloof now).pins

theorem tick_pins : Pins tick :=
  .bind within_read fun _ => .when _ (.bind settleHomeGate_pins fun _ => tickTasks_pins _)

/-! ### Chat

Only typed commands, sales and the return home send chat messages. All other tasks leave
the queue of commands and their credits alone. -/

structure Stock where
  commands : List Command
  commandCredits : ℤ
  creditAt : ℤ
  now : ℤ

def stock (s : Behaviors) : Stock := ⟨s.commands, s.commandCredits, s.creditAt, s.now⟩

def NotChat : GameCall → Prop
  | .chat _ => False
  | _ => True

/-- The task sends nothing, and leaves the queue and the credits alone. -/
abbrev Silent {α : Type} (t : Code α) : Prop := t.Within stock NotChat

theorem InMenus.silent {α : Type} {t : Code α} (h : InMenus t) : Silent t := by
  refine h.mono (fun s s' hs => ?_) fun c hc => ?_
  · exact (congrArg stock hs : stock s.menusAside = stock s'.menusAside)
  · cases c <;> trivial

theorem recoveringHome_silent (pending : Bool) : Silent (recoveringHome pending) :=
  .bind within_read fun _ => .when _ (within_perform.mpr trivial)

theorem configure_silent (config : BehaviorConfig) : Silent (configure config) := by
  refine .bind within_read fun s => .bind (within_update.mpr fun s => ?_) fun _ => ?_
  · unfold applyConfig
    split <;> rfl
  · exact .bind (within_perform.mpr trivial) fun _ => (applySell_inMenus _ _).silent

theorem spawned_silent : Silent spawned :=
  .bind (within_update.mpr fun _ => rfl) fun _ => .bind within_read fun _ =>
    .bind (within_perform.mpr trivial) fun _ => .bind (within_update.mpr fun _ => rfl) fun _ =>
      .bind within_read fun _ => recoveringHome_silent _

theorem settleHomeGate_silent : Silent settleHomeGate := by
  refine .bind within_read fun s => ?_
  split
  · exact .bind (recoveringHome_silent _) fun _ => within_update.mpr fun _ => rfl
  · exact within_pure ()

theorem settleSavedHome_silent : Silent settleSavedHome := by
  refine .bind within_read fun s => ?_
  split
  · refine .bind (.when _ (within_perform.mpr trivial)) fun _ => within_update.mpr fun s => ?_
    split <;> rfl
  · exact within_pure ()

theorem stock_runSneakChecks (s : Behaviors) (n : ℤ) : stock (s.runSneakChecks n) = stock s := by
  simp only [runSneakChecks, checkSneak]
  split_ifs <;> rfl

theorem reassertSneak_silent (n : ℤ) : Silent (reassertSneak n) := by
  refine .bind (within_update.mpr fun s => stock_runSneakChecks s n) fun _ => ?_
  refine .bind within_read fun s => .when _ (.orCatch ?_ fun _ => within_update.mpr fun _ => rfl)
  exact .bind (within_perform.mpr trivial) fun _ => within_update.mpr fun _ => rfl

theorem suspendSell_silent (durationMs : ℤ) : Silent (suspendSell durationMs) :=
  .bind within_read fun _ => .when _ (within_perform.mpr trivial)

theorem cleanSpawner_silent (generation : ℕ) (menu : String) :
    Silent (cleanSpawner generation menu) := by
  refine .bind within_read fun s => .bind (within_perform.mpr trivial) fun opened => ?_
  split
  · exact .bind within_read fun _ => .when _ (setForeground_inMenus _).silent
  · exact (emitting_inMenus _).silent

theorem navigate_silent (text : String) : Silent (navigate text) :=
  .bind (within_update.mpr fun _ => rfl) fun _ => .bind (recoveringHome_silent false) fun _ =>
    .when _ (within_update.mpr fun _ => rfl)

/-! ### Messages of the server

A message changes neither what typed commands leave alone nor what silent tasks do. -/

/-- The settings, the pause, the queue and its credits. -/
def unheard (s : Behaviors) : Pinned × Stock := (pinned s, stock s)

theorem unheard_confirmHome (s : Behaviors) (message : String) :
    unheard (s.confirmHome message) = unheard s := by
  unfold confirmHome
  split
  · split <;> rfl
  · rfl

theorem unheard_onChat (s : Behaviors) (sender : Option String) (message : String) :
    unheard (s.onChat sender message) = unheard s := by
  unfold onChat
  generalize teleportSuccess message = teleported
  generalize (payoutLine.test (plain message) && (parseSellEarning message).isSome) = paid
  generalize inventoryLocked.test (plain message) = locked
  split
  · rfl
  · have hteleport : unheard (if teleported then { s.scheduleSneak with nextSneak := 0 } else s) =
        unheard s := by
      cases teleported <;> rfl
    have hconfirm := (unheard_confirmHome _ message).trans hteleport
    dsimp only
    generalize confirmHome _ message = t at hconfirm ⊢
    rw [← hconfirm]
    cases paid <;> cases locked <;> rfl

theorem pinned_onChat (s : Behaviors) (sender : Option String) (message : String) :
    pinned (s.onChat sender message) = pinned s :=
  congrArg Prod.fst (unheard_onChat s sender message)

theorem stock_onChat (s : Behaviors) (sender : Option String) (message : String) :
    stock (s.onChat sender message) = stock s :=
  congrArg Prod.snd (unheard_onChat s sender message)

end AfkClient.Behaviors
