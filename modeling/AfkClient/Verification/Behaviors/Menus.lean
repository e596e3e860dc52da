import AfkClient.Verification.Behaviors.SaleLog

/-! What a bot does in menus. Between the snapshot of a menu and what the bot does there no other
code runs, so every click, transfer and close is aimed at a menu that was just seen. -/

namespace AfkClient

/-- The stacks in the container of a menu. -/
def GameInventory.stock (inventory : GameInventory) : List GameSlot :=
  inventory.slots.filter fun slot => inventory.containerSlots.contains slot.slot && 0 < slot.count

namespace Behaviors

open AfkClient.Task

attribute [local irreducible] Re.test Re.capture

/-! ### What a call is aimed at -/

/-- A sale transfers what it notes as pending, in its own menu. -/
structure Sells (inventory : GameInventory) (s : Behaviors) (transfer : Transfer) : Prop where
  title : sellTitle inventory.title = true
  sale : ∃ sale, s.sell = some sale ∧ sale.menu = inventory.menuId ∧ sale.pending = some transfer
  item : ∀ item ∈ transfer.batch.getD [transfer.slot], item ∈ inventory.slots ∧ 0 < item.count

/-- A menu task in the menu that opened for it, before its deadline. -/
structure AtWork (inventory : GameInventory) (s : Behaviors) (task : Foreground) : Prop where
  running : s.foreground = some task
  menu : task.menu = inventory.menuId
  other : task.menu ≠ task.previousMenu
  time : s.now < task.deadline

/-- Items that are configured for a phase of `CleanSpawner`. -/
def spawnerNames (cfg : BehaviorConfig) : SpawnerPhase → List String
  | .drop => cfg.spawnerDropItems.getD []
  | .sell => cfg.spawnerSellItems.getD []

/-- There is another stack of a configured item. -/
def Spare (cfg : BehaviorConfig) (phase : SpawnerPhase) (inventory : GameInventory)
    (item : GameSlot) : Prop :=
  (cfg.spawnerType.filter (· ≠ "")).isSome → item.itemId ∈ spawnerNames cfg phase ∧
    1 < inventory.stock.countP (·.itemId = item.itemId)

/-- A click of `CleanSpawner`. -/
structure Cleans (inventory : GameInventory) (s : Behaviors) (slot : ℕ) (phase : SpawnerPhase) :
    Prop where
  task : ∃ task, AtWork inventory s task ∧ task.kind = .spawner ∧ task.phase = phase
  spare : ∃ item ∈ inventory.stock, Spare s.cfg phase inventory item ∧
    (phase = .drop → item.slot = slot)
  button : phase = .sell → ∃ button ∈ inventory.stock, button.slot = slot ∧
    isSellButton s.cfg button = true

/-- What may be done in the menu that was just seen. -/
def AllowedIn (inventory : GameInventory) (s : Behaviors) : GameCall → Prop
  | .click _ slot .transfer => ∃ transfer, Sells inventory s transfer ∧ transfer.batch = none ∧
      transfer.slot.slot = slot
  | .click _ slot .drop => Cleans inventory s slot .drop
  | .click _ slot .left => Cleans inventory s slot .sell
  | .transferAll _ => ∃ transfer, Sells inventory s transfer ∧ transfer.batch.isSome
  | _ => True

def GameCall.menu : GameCall → Option String
  | .click menu _ _ | .transferAll menu | .close menu => some menu
  | _ => none

/-- A call is about no menu, or about the open menu of the snapshot. -/
def Aimed (shown : Option GameInventory) (c : GameCall) (s : Behaviors) : Prop :=
  ∀ menu ∈ GameCall.menu c, ∃ inventory, shown = some inventory ∧ inventory.menuId = menu ∧
    inventory.containerSlots ≠ [] ∧ AllowedIn inventory s c

def aims : Protocol Behaviors GameCall GameCall.Reply Failure (Option GameInventory) where
  call shown c s := Aimed shown c s
  back _ _ _ _ _ := True
  next _ c _ a _ := snapshotOf c a

/-- Whatever others do meanwhile, the task aims at the menus that it sees. -/
abbrev Aims {α : Type} (t : Code α) (shown : Option GameInventory) (s : Behaviors) : Prop :=
  t.Follows aims (fun _ _ _ => True) shown s

variable {shown : Option GameInventory} {s : Behaviors} {inventory : GameInventory}

theorem Aims.bind {α β : Type} {t : Code α} {f : α → Code β} (ht : Aims t shown s)
    (hf : ∀ a shown s, Aims (f a) shown s) : Aims (t >>= f) shown s :=
  Follows.bind ht (fun shown a s _ => hf a shown s) fun _ _ _ _ => trivial

theorem Aims.orCatch {α : Type} {t : Code α} {handler : Failure → Code α} (ht : Aims t shown s)
    (hh : ∀ e shown s, Aims (handler e) shown s) : Aims (t.orCatch handler) shown s :=
  Follows.orCatch ht (fun _ _ _ _ => trivial) fun shown e s _ => hh e shown s

theorem Aims.when {t : Code Unit} {condition : Bool} (ht : condition = true → Aims t shown s) :
    Aims (.when condition t) shown s := by
  apply follows_when.mpr
  split
  · rename_i h
    exact ht h
  · trivial

theorem aims_of_aimless {γ α : Type} {V : Behaviors → γ} {t : Code α}
    (ht : t.Within V fun c => GameCall.menu c = none) (shown : Option GameInventory)
    (s : Behaviors) : Aims t shown s := by
  apply Within.follows ht (I := fun _ _ => True) (fun _ _ _ _ _ => trivial) ?_ trivial
  intro shown c s hc _
  refine ⟨fun menu hmenu => ?_, fun _ _ _ => trivial⟩
  cases hc.symm.trans hmenu

theorem OffMenus.aims {α : Type} {t : Code α} (ht : OffMenus t) : Aims t shown s := by
  refine aims_of_aimless (ht.mono (fun _ _ h => h) fun c hc => ?_) shown s
  cases c with
  | inventory | click | transferAll | close => exact hc.elim
  | _ => rfl

theorem update_aims {f : Behaviors → Behaviors} : Aims (.update f) shown s := trivial

/-- The snapshot is there when the code goes on. -/
theorem inventory_bind_aims {α : Type} {f : GameInventory → Code α}
    (hf : ∀ inventory s, Aims (f inventory) (some inventory) s) :
    Aims (await .inventory >>= f) shown s := by
  apply follows_bind.mpr
  apply follows_perform.mpr
  constructor
  · intro menu hmenu
    cases hmenu
  intro a s' _
  cases a with
  | ok inventory => exact hf inventory s'
  | error e => trivial

theorem close_aims (hopen : inventory.containerSlots ≠ []) :
    Aims (await (.close inventory.menuId)) (some inventory) s := by
  apply follows_perform.mpr
  refine ⟨fun menu hmenu => ⟨inventory, rfl, Option.some.inj hmenu, hopen, trivial⟩, ?_⟩
  exact fun _ _ _ => trivial

/-! ### Sales -/

theorem closeOwned_aims (menu : String) : Aims (closeOwned menu) shown s := by
  refine inventory_bind_aims fun inventory s => Aims.when fun hsame => ?_
  rw [Bool.and_eq_true, decide_eq_true_eq, decide_eq_true_eq] at hsame
  rw [← hsame.1]
  exact close_aims hsame.2

theorem cancelSell_aims : Aims cancelSell shown s := by
  apply follows_read_bind.mpr
  apply follows_update_bind.mpr
  cases s.sell with
  | none => trivial
  | some sale => exact Aims.when fun _ => closeOwned_aims sale.menu

theorem failSell_aims (reason : String) : Aims (failSell reason) shown s :=
  cancelSell_aims.bind fun _ _ _ => update_aims

theorem applySell_aims (config : BehaviorConfig) (changed : Bool) :
    Aims (applySell config changed) shown s :=
  (Aims.when fun _ => cancelSell_aims).bind fun _ _ _ => Aims.when fun _ => update_aims

/-- A sale that goes on in the open menu of the snapshot. -/
structure SaleOpen (inventory : GameInventory) (s : Behaviors) (id : ℕ) : Prop where
  title : sellTitle inventory.title = true
  shown : inventory.containerSlots ≠ []
  sale : ∃ sale, s.sell = some sale ∧ sale.id = id ∧ sale.menu = inventory.menuId

theorem SaleOpen.update {id : ℕ} (h : SaleOpen inventory s id) {f : Sell → Sell}
    (hf : ∀ sale, (f sale).id = sale.id ∧ (f sale).menu = sale.menu) :
    SaleOpen inventory (s.updateSell id f) id := by
  obtain ⟨sale, hsell, hid, hmenu⟩ := h.sale
  refine ⟨h.title, h.shown, f sale, updateSell_of_eq hsell hid f, ?_, ?_⟩
  · exact (hf sale).1.trans hid
  · exact (hf sale).2.trans hmenu

theorem sendTransfer_aims {id : ℕ} {transfer : Transfer} {call : Code Unit}
    (h : SaleOpen inventory s id)
    (hitem : ∀ item ∈ transfer.batch.getD [transfer.slot], item ∈ inventory.slots ∧ 0 < item.count)
    (hcall : ∀ s, Sells inventory s transfer → Aims call (some inventory) s) :
    Aims (sendTransfer id transfer call) (some inventory) s := by
  apply follows_update_bind.mpr
  obtain ⟨sale, hsell, hid, hmenu⟩ := h.sale
  refine Aims.orCatch (Aims.bind (hcall _ ⟨h.title, ?_, hitem⟩) fun _ _ _ => update_aims) ?_
  · exact ⟨_, updateSell_of_eq hsell hid _, hmenu, rfl⟩
  · intro e shown s
    apply follows_read_bind.mpr
    exact Aims.when fun _ => failSell_aims _

theorem transferNext_aims {id : ℕ} (targets : List ℕ) (now : ℤ) (h : SaleOpen inventory s id) :
    Aims (transferNext id targets inventory now) (some inventory) s := by
  apply follows_read_bind.mpr
  split
  · apply follows_update_bind.mpr
    have hopen := h.update (f := fun sale => { sale with targets := some [] })
      fun sale => ⟨rfl, rfl⟩
    split
    · exact cancelSell_aims
    · rename_i item items hitems
      refine sendTransfer_aims hopen (fun item' hmem => ?_) fun s hsells => ?_
      · have hmem' := List.mem_filter.mp (hitems ▸ hmem)
        exact ⟨hmem'.1, of_decide_eq_true (Bool.and_eq_true_iff.mp hmem'.2).2⟩
      · apply follows_perform.mpr
        refine ⟨fun menu hmenu => ⟨inventory, rfl, Option.some.inj hmenu, h.shown, _, hsells, rfl⟩, ?_⟩
        exact fun _ _ _ => trivial
  · cases targets with
    | nil => exact cancelSell_aims
    | cons target targets =>
        apply follows_update_bind.mpr
        have hopen := h.update (f := fun sale => { sale with targets := some targets })
          fun sale => ⟨rfl, rfl⟩
        split
        · trivial
        · rename_i item hitem
          refine sendTransfer_aims hopen (fun item' hmem => ?_) fun s hsells => ?_
          · obtain rfl := List.mem_singleton.mp hmem
            have hfound := List.find?_some hitem
            rw [Bool.and_eq_true, decide_eq_true_eq, decide_eq_true_eq] at hfound
            exact ⟨List.mem_of_find?_eq_some hitem, hfound.2⟩
          · apply follows_perform.mpr
            refine ⟨fun menu hmenu =>
              ⟨inventory, rfl, Option.some.inj hmenu, h.shown, _, hsells, rfl, rfl⟩, ?_⟩
            exact fun _ _ _ => trivial

theorem advanceSale_aims {sale : Sell} (opened now : ℤ) (hsell : s.sell = some sale)
    (htitle : sellTitle inventory.title = true) (hshown : inventory.containerSlots ≠ []) :
    Aims (advanceSale sale opened inventory now) (some inventory) s := by
  apply follows_update_bind.mpr
  have hopen : SaleOpen inventory (s.updateSell sale.id fun sale =>
      { sale with menu := inventory.menuId, opened := some opened }) sale.id :=
    ⟨htitle, hshown, _, updateSell_of_eq hsell rfl _, rfl, rfl⟩
  generalize s.updateSell sale.id (fun sale =>
      { sale with menu := inventory.menuId, opened := some opened }) = t at hopen
  refine Aims.when fun _ => ?_
  apply follows_update_bind.mpr
  have hopen' := hopen.update
    (f := fun sale' => { sale' with targets := some (sale.aims inventory) }) fun sale => ⟨rfl, rfl⟩
  dsimp only
  split
  · exact Aims.when fun _ => failSell_aims _
  · apply follows_update_bind.mpr
    exact transferNext_aims _ now (hopen'.update fun sale => ⟨rfl, rfl⟩)

theorem continueSale_aims {sale : Sell} (now : ℤ) (hsell : s.sell = some sale) :
    Aims (continueSale sale inventory now) (some inventory) s := by
  unfold continueSale
  split
  · exact failSell_aims _
  split
  · exact failSell_aims _
  split
  · exact Aims.when fun _ => update_aims
  rename_i hshown
  split
  · exact update_aims
  · rename_i hbound
    rw [not_or] at hbound
    exact advanceSale_aims _ now hsell (by simpa using hbound.1) hshown

theorem startSale_aims (generation : ℕ) (now : ℤ) : Aims (startSale generation now) shown s := by
  apply follows_read_bind.mpr
  apply follows_update_bind.mpr
  refine Aims.bind (Aims.orCatch (dispatch_offMenus _ _).aims fun e shown s => ?_) fun _ shown s => ?_
  · trivial
  · apply follows_read_bind.mpr
    exact Aims.when fun _ => update_aims

theorem tickSell_aims (now : ℤ) : Aims (tickSell now) shown s := by
  apply follows_read_bind.mpr
  refine Aims.when fun _ => inventory_bind_aims fun inventory t => ?_
  apply follows_read_bind.mpr
  refine Aims.when fun _ => ?_
  split
  · rename_i sale hsell
    exact continueSale_aims t.now hsell
  · split
    · rename_i hopen
      exact Aims.when fun _ => (close_aims hopen).bind fun _ _ _ => update_aims
    · exact Aims.when fun _ => startSale_aims _ _

/-! ### Menu tasks -/

theorem AtWork.update {task : Foreground} {id : ℕ} (h : AtWork inventory s task)
    (hid : task.id = id) {f : Foreground → Foreground}
    (hf : (f task).menu = task.menu ∧ (f task).previousMenu = task.previousMenu ∧
      (f task).deadline = task.deadline) :
    AtWork inventory (s.updateForeground id f) (f task) := by
  obtain ⟨hmenu, hprevious, hdeadline⟩ := hf
  refine ⟨?_, hmenu.trans h.menu, ?_, ?_⟩
  · rw [updateForeground, h.running, Option.map_some, if_pos hid]
  · rw [hmenu, hprevious]
    exact h.other
  · rw [hdeadline]
    exact h.time

theorem scanMultipliers_aims (hopen : inventory.containerSlots ≠ []) :
    Aims (scanMultipliers inventory) (some inventory) s :=
  Aims.when fun _ => (close_aims hopen).bind fun _ _ _ =>
    Aims.bind update_aims fun _ _ _ => update_aims

theorem sendClick_aims {id slot : ℕ} {click : Click} {action : ClickAction}
    (h : Aimed (some inventory) (.click inventory.menuId slot action)
      (s.updateForeground id fun task => { task with pending := some click })) :
    Aims (sendClick id click (await (.click inventory.menuId slot action))) (some inventory) s := by
  apply follows_update_bind.mpr
  apply follows_perform.mpr
  exact ⟨h, fun _ _ _ => trivial⟩

/-- What may be clicked in a phase are stacks of the container that can be spared. -/
theorem spawnerView_eligible {cfg : BehaviorConfig} {phase : SpawnerPhase} {item : GameSlot}
    (hmem : item ∈ (spawnerView cfg phase inventory inventory.stock).eligible) :
    item ∈ inventory.stock ∧ Spare cfg phase inventory item := by
  unfold spawnerView at hmem
  dsimp only at hmem
  split at hmem
  · obtain ⟨hmatching, hcount⟩ := List.mem_filter.mp hmem
    obtain ⟨hstock, hnames⟩ := List.mem_filter.mp hmatching
    refine ⟨hstock, fun _ => ⟨?_, ?_⟩⟩
    · cases phase <;> simpa [spawnerNames] using hnames
    · exact (of_decide_eq_true hcount).trans_le (List.filter_sublist.countP_le)
  · rename_i htype
    exact ⟨(List.mem_insertionSort _).mp hmem, fun hsome => absurd hsome htype⟩

theorem eligible_of_unfinished {cfg : BehaviorConfig} {phase : SpawnerPhase}
    (h : ¬(spawnerView cfg phase inventory inventory.stock).finished = true) :
    (spawnerView cfg phase inventory inventory.stock).eligible ≠ [] := by
  unfold spawnerView at h ⊢
  dsimp only at h ⊢
  split at h
  · rename_i htype
    rw [if_pos htype]
    simpa using h
  · rename_i htype
    rw [if_neg htype]
    rw [Bool.or_eq_true, not_or] at h
    simpa using h.2

/-- `CleanSpawner` in its menu; `task` is what it was when the tick began. -/
structure Cleaning (inventory : GameInventory) (s : Behaviors) (task current : Foreground) : Prop where
  atWork : AtWork inventory s current
  id : current.id = task.id
  kind : current.kind = .spawner
  phase : current.phase = task.phase

theorem clickSpawner_aims {task current : Foreground} (now : ℤ)
    (h : Cleaning inventory s task current) (hopen : inventory.containerSlots ≠ []) :
    Aims (clickSpawner task (spawnerView s.cfg task.phase inventory inventory.stock)
      inventory.stock inventory now) (some inventory) s := by
  apply follows_read_bind.mpr
  split
  · split
    · exact update_aims
    · exact (close_aims hopen).bind fun _ _ _ => Aims.bind update_aims fun _ _ _ => update_aims
  · rename_i hleft
    have hwork (click : Click) := h.atWork.update h.id
      (f := fun task => { task with pending := some click }) ⟨rfl, rfl, rfl⟩
    dsimp only
    split
    · rename_i hphase
      split
      · rename_i item hitem
        rw [hphase] at hitem
        obtain ⟨hstock, hspare⟩ := spawnerView_eligible (List.mem_of_head? hitem)
        refine Aims.bind (sendClick_aims fun menu hmenu => ?_) fun _ _ _ => update_aims
        refine ⟨inventory, rfl, Option.some.inj hmenu, hopen,
          ⟨_, hwork _, h.kind, h.phase.trans hphase⟩, ?_, ?_⟩
        · exact ⟨item, hstock, hspare, fun _ => rfl⟩
        · rintro ⟨⟩
      · exact update_aims
    · rename_i hphase
      split
      · rename_i button hbutton
        rw [hphase] at hleft
        obtain ⟨item, items, heligible⟩ := List.exists_cons_of_ne_nil (eligible_of_unfinished hleft)
        have hmem := List.mem_cons_self (a := item) (l := items)
        rw [← heligible] at hmem
        obtain ⟨hstock, hspare⟩ := spawnerView_eligible hmem
        refine Aims.bind (sendClick_aims fun menu hmenu => ?_) fun _ _ _ => update_aims
        refine ⟨inventory, rfl, Option.some.inj hmenu, hopen,
          ⟨_, hwork _, h.kind, h.phase.trans hphase⟩, ?_, ?_⟩
        · exact ⟨item, hstock, hspare, by rintro ⟨⟩⟩
        · intro _
          exact ⟨button, List.mem_of_find?_eq_some hbutton, rfl, List.find?_some hbutton⟩
      · exact update_aims

theorem tickSpawner_aims {task current : Foreground} (opened now : ℤ)
    (h : Cleaning inventory s task current) (hopen : inventory.containerSlots ≠ []) :
    Aims (tickSpawner task opened inventory now) (some inventory) s := by
  apply follows_read_bind.mpr
  refine Aims.when fun _ => ?_
  dsimp only
  split
  · exact Aims.when fun _ => (closeOwned_aims _).bind fun _ _ _ =>
      Aims.bind update_aims fun _ _ _ => update_aims
  · apply follows_update_bind.mpr
    have hwork := h.atWork.update h.id (f := fun task => { task with pending := none }) ⟨rfl, rfl, rfl⟩
    exact clickSpawner_aims now ⟨hwork, h.id, h.kind, h.phase⟩ hopen

theorem advanceForeground_aims {task : Foreground} {now : ℤ} (htask : s.foreground = some task)
    (hnow : s.now = now) : Aims (advanceForeground task inventory now) (some inventory) s := by
  unfold advanceForeground
  split
  · exact Aims.bind (Aims.when fun _ => closeOwned_aims _) fun _ _ _ =>
      Aims.bind update_aims fun _ _ _ => update_aims
  rename_i htime
  split
  · exact Aims.when fun _ => update_aims
  rename_i hopen
  split
  · trivial
  rename_i hother
  split
  · exact update_aims
  · apply follows_update_bind.mpr
    split
    · exact scanMultipliers_aims hopen
    · rename_i hkind
      set opened := if task.menu = "" then now else task.opened.getD now
      have hrunning : (s.updateForeground task.id fun task => { task with
          menu := inventory.menuId, opened := some opened }).foreground = some { task with
          menu := inventory.menuId, opened := some opened } := by
        rw [updateForeground, htask, Option.map_some, if_pos rfl]
      have hwork := AtWork.mk hrunning rfl hother (hnow.trans_lt (lt_of_not_ge htime))
      exact tickSpawner_aims opened now ⟨hwork, rfl, hkind, rfl⟩ hopen

theorem tickForeground_aims (now : ℤ) : Aims (tickForeground now) shown s := by
  apply follows_read_bind.mpr
  split
  · trivial
  · refine Aims.when fun _ => inventory_bind_aims fun inventory t => ?_
    apply follows_read_bind.mpr
    split
    · rename_i current hcurrent
      exact Aims.when fun _ => advanceForeground_aims hcurrent rfl
    · trivial

/-! ### Typed commands and ticks -/

/-- A command closes the menu that it finds open. -/
theorem openMenu_bind_aims {type : CommandType} {f : GameInventory → Code Unit}
    (hf : ∀ inventory s, Aims (f inventory) (some inventory) s)
    (hnone : ∀ shown s, Aims (f ⟨"", "", [], [], []⟩) shown s) :
    Aims (openMenu type >>= f) shown s := by
  apply follows_bind.mpr
  apply follows_read_bind.mpr
  apply follows_orCatch.mpr
  apply follows_perform.mpr
  constructor
  · intro menu hmenu
    cases hmenu
  intro a s' _
  cases a with
  | ok inventory => exact hf inventory s'
  | error e =>
      dsimp only
      split
      · exact hnone _ s'
      · trivial

theorem setForeground_aims (task : ℕ → ℤ → Foreground) : Aims (setForeground task) shown s :=
  update_aims

theorem runTyped_aims (command : Command) (generation : ℕ) (menu : String) :
    Aims (match command.type with
      | .readSellMultipliers => readMultipliers generation menu
      | .cleanSpawner => cleanSpawner generation menu
      | .chat =>
          match command.text.filter (· ≠ "") with
          | some text => typeCommand text
          | none => pure ()) shown s := by
  split
  · refine (dispatch_offMenus _ _).aims.bind fun _ _ _ => ?_
    apply follows_read_bind.mpr
    exact Aims.when fun _ => setForeground_aims _
  · apply follows_read_bind.mpr
    refine Aims.bind (OffMenus.aims (within_perform.mpr trivial)) fun opened _ _ => ?_
    split
    · apply follows_read_bind.mpr
      exact Aims.when fun _ => setForeground_aims _
    · exact update_aims
  · split
    · exact (typeCommand_offMenus _).aims
    · trivial

theorem runCommand_aims (command : Command) : Aims (runCommand command) shown s := by
  refine (suspendSell_offMenus 5000).aims.bind fun _ _ s => ?_
  apply follows_read_bind.mpr
  apply follows_update_bind.mpr
  refine openMenu_bind_aims (fun inventory t => ?_) fun shown t => ?_
  · refine Aims.bind (Aims.when fun hopen => close_aims (of_decide_eq_true hopen)) fun _ _ _ => ?_
    exact Aims.bind update_aims fun _ _ _ => runTyped_aims command _ _
  · exact Aims.bind (Aims.when nofun) fun _ _ _ =>
      Aims.bind update_aims fun _ _ _ => runTyped_aims command _ _

theorem takeCommand_aims (command : Command) (now : ℤ) : Aims (takeCommand command now) shown s := by
  refine (creditReady_offMenus now).aims.bind fun _ _ _ => Aims.when fun _ => ?_
  apply follows_update_bind.mpr
  exact (runCommand_aims command).orCatch fun _ _ _ => update_aims

theorem tickAutomation_aims (now : ℤ) : Aims (tickAutomation now) shown s := by
  apply follows_read_bind.mpr
  split
  · exact cancelSell_aims
  split
  · trivial
  split
  · exact tickForeground_aims now
  split
  · exact Aims.when fun _ => (creditReady_offMenus now).aims.bind fun _ _ _ =>
      Aims.when fun _ => (returnHome_offMenus now).aims
  · exact Aims.when fun _ => tickSell_aims now

theorem tick_aims : Aims tick shown s := by
  apply follows_read_bind.mpr
  refine Aims.when fun _ => settleHomeGate_offMenus.aims.bind fun _ _ _ => ?_
  refine settleSavedHome_offMenus.aims.bind fun _ _ t => ?_
  apply follows_read_bind.mpr
  refine Aims.when fun _ => (reassertSneak_offMenus _).aims.bind fun _ _ u => ?_
  apply follows_read_bind.mpr
  split
  · exact takeCommand_aims _ _
  · exact tickAutomation_aims _

theorem configure_aims (config : BehaviorConfig) : Aims (configure config) shown s := by
  apply follows_read_bind.mpr
  apply follows_update_bind.mpr
  refine Aims.bind (OffMenus.aims (within_perform.mpr trivial)) fun _ _ _ => ?_
  exact applySell_aims config _

/-! ### Runs -/

/-- The round goes on to aim at the menus that it sees. -/
structure Aiming (b : Scheduler) : Prop where
  trading : Trading b
  round : ∀ w ∈ b.round, ∃ shown, w.Follows aims (fun _ _ _ => True) shown

theorem Scheduler.Begins.aims {b : Scheduler} (h : Aiming b) {i : Input} {t : Code Unit}
    (ht : b.Begins i t) : Aims t (b.opening i).snapshot b.fresh := by
  cases ht with
  | tick hround => exact tick_aims
  | configure hround config => exact configure_aims config
  | @answer w hround answers =>
      obtain ⟨shown, hfollows⟩ := h.round w hround
      have hopening : (b.opening (.answer 0 answers)).snapshot = snapshotOf w.call (answers w.call) := by
        simp [opening, hround]
      rw [hopening]
      exact hfollows.2 (answers w.call) b.fresh trivial

theorem elsewhere_aimed {c : GameCall} (hc : Elsewhere c) : Aimed shown c s := by
  intro menu hmenu
  cases c with
  | inventory | click | transferAll | close => exact hc.elim
  | _ => cases hmenu

theorem step_aiming {b : Scheduler} (h : Aiming b) (i : Input) : Aiming (b.step i) ∧
    ∀ w ∈ (b.step i).made, Aimed (b.opening i).snapshot w.call (b.step i).vars := by
  have htrading := (step_trading h.trading i).1
  have hround {t : Code Unit} (ht : b.Begins i t) :
      (∀ w ∈ (runCode b.fresh t).2, ∃ shown, w.Follows aims (fun _ _ _ => True) shown) ∧
        ∀ w ∈ (runCode b.fresh t).2,
          Aimed (b.opening i).snapshot w.call (runCode b.fresh t).1 := by
    obtain ⟨hnone, -⟩ | ⟨w, hsome, -, hasked, hfollows⟩ := runCode_follows (ht.aims h)
    · rw [hnone]
      exact ⟨by simp, by simp⟩
    · rw [hsome, ← hasked]
      constructor
      · intro v hv
        obtain rfl := Option.some.inj hv
        exact ⟨_, hfollows⟩
      · intro v hv
        obtain rfl := Option.some.inj hv
        exact hfollows.1
  have hmoves := b.step_moves i
  generalize b.step i = b' at hmoves htrading ⊢
  cases hmoves with
  | none => exact ⟨⟨htrading, h.round⟩, by simp⟩
  | method hf => exact ⟨⟨htrading, h.round⟩, by simp⟩
  | round ht => exact ⟨⟨htrading, (hround ht).1⟩, (hround ht).2⟩
  | @beside t spawns ht =>
      refine ⟨⟨htrading, h.round⟩, fun w hw => ?_⟩
      have hmem : w ∈ (runCode b.fresh t).2.toList ++ spawns :=
        List.mem_append_left spawns (Option.mem_toList.mpr hw)
      exact elsewhere_aimed (htrading.spawns w hmem).1

/-- Whatever the order of ticks, answers, messages and all other inputs: each click, transfer and
close goes to the open menu of the snapshot with which the code of its step began, a transfer only
to a sale menu, and a click of `CleanSpawner` only within its own menu and its time, as long as a
configured item can be spared. A sale and a menu task are never there at once. -/
theorem menus_aimed (config : BehaviorConfig) (game : GameGateway) (letterOrNumber : Char → Bool)
    (is : List Input) :
    Meets Scheduler.step
        (fun b i => ∀ w ∈ (b.step i).made, Aimed (b.opening i).snapshot w.call (b.step i).vars)
        (.init config game letterOrNumber) is ∧
      Along Scheduler.step (fun b => b.vars.sell = none ∨ b.vars.foreground = none)
        (.init config game letterOrNumber) is := by
  have hinit : Aiming (.init config game letterOrNumber) := by
    refine ⟨⟨.inl rfl, ?_, ?_⟩, ?_⟩
    · simp [Scheduler.init]
    · simp [Scheduler.init]
    · simp [Scheduler.init]
  constructor
  · exact meets_of_preserved (P := Aiming) (D := fun _ _ => True)
      (fun b i hb _ => step_aiming hb i) hinit meets_true
  · refine (along_of_invariant (P := Aiming) (fun b i hb => (step_aiming hb i).1) hinit is).mono ?_
    exact fun b hb => hb.trading.apart

end Behaviors

end AfkClient
