import AfkClient.Verification.Behaviors.Steps

/-! Sales. A sale belongs to the round: between two calls the code of a round begins a sale,
stamps a message of it, reads a snapshot for it or gives it up. While the round waits, other
code can only end the sale or note a payout. -/

namespace AfkClient

/-- Shift-clicks of a sale. -/
def GameCall.transfers : GameCall → Bool
  | .click _ _ .transfer | .transferAll _ => true
  | _ => false

/-- The slots with stacks of the player. -/
def GameInventory.populated (inventory : GameInventory) : List ℕ :=
  (inventory.slots.filter fun slot =>
    inventory.playerSlots.contains slot.slot && 0 < slot.count).map (·.slot)

/-! ### What a sale can become -/

namespace Sell

/-- The slots that are still to be transferred. -/
def aims (sale : Sell) (inventory : GameInventory) : List ℕ :=
  sale.targets.getD inventory.populated

def bind (sale : Sell) (inventory : GameInventory) (now : ℤ) : Sell :=
  { sale with
    menu := inventory.menuId
    opened := some (if sale.menu = "" then now else sale.opened.getD now) }

def confirm (sale : Sell) : Sell :=
  { sale with pending := sale.pending.map fun p => { p with confirmed := true } }

/-- The last transfer is not confirmed, neither by a payout nor by the snapshot. -/
def waits (sale : Sell) (inventory : GameInventory) : Bool :=
  sale.pending.any fun pending => !pending.confirmed &&
    (pending.batch.getD [pending.slot]).all (Behaviors.unchangedIn inventory.slots)

/-- The messages of a sale that the game accepts. -/
inductive Message where
  | request | transfer
  deriving DecidableEq

def stamp (sale : Sell) (now : ℤ) : Message → Sell
  | .request => { sale with requested := now }
  | .transfer => { sale with pending := sale.pending.map fun p => { p with sentAt := now } }

/-- What becomes of a sale that goes on with a snapshot of an open menu, and the call it
makes then; `all` says whether it transfers all slots at once. -/
inductive Reads (all : Bool) (sale : Sell) (inventory : GameInventory) (now : ℤ) :
    Sell → Option GameCall → Prop where
  | loading (htargets : sale.targets = none) :
      Reads all sale inventory now (sale.bind inventory now) none
  | holding (hwaits : sale.waits inventory = true)
      (htime : ∀ p ∈ sale.pending, now - p.sentAt < 5000) :
      Reads all sale inventory now
        { sale.bind inventory now with targets := some (sale.aims inventory) } none
  | skipping {target : ℕ} {targets : List ℕ} (hall : all = false)
      (hfree : sale.waits inventory = false) (haims : sale.aims inventory = target :: targets) :
      Reads all sale inventory now
        { sale.bind inventory now with targets := some targets, pending := none } none
  | sending {target : ℕ} {targets : List ℕ} {item : GameSlot} (hall : all = false)
      (hfree : sale.waits inventory = false) (haims : sale.aims inventory = target :: targets)
      (hitem : inventory.slots.find? (fun slot => slot.slot = target && 0 < slot.count) =
        some item) :
      Reads all sale inventory now
        { sale.bind inventory now with
          targets := some targets, pending := some ⟨item, none, now, false⟩ }
        (some (.click inventory.menuId item.slot .transfer))
  | sendingAll {item : GameSlot} {items : List GameSlot} (hall : all = true)
      (hfree : sale.waits inventory = false) (haims : sale.aims inventory ≠ [])
      (hitems : inventory.slots.filter (fun slot =>
        (sale.aims inventory).contains slot.slot && 0 < slot.count) = item :: items) :
      Reads all sale inventory now
        { sale.bind inventory now with
          targets := some [], pending := some ⟨item, some (item :: items), now, false⟩ }
        (some (.transferAll inventory.menuId))

end Sell

namespace Behaviors

open AfkClient.Task

attribute [local irreducible] Re.test Re.capture

/-! ### Between two calls -/

/-- How the code between two calls began: with the snapshot it asked for, or with the answer
to a message of the sale. -/
structure Opening where
  state : Behaviors
  snapshot : Option GameInventory := none
  stamp : Option Sell.Message := none

def snapshotOf : (c : GameCall) → Except Failure c.Reply → Option GameInventory
  | .inventory, .ok inventory => some inventory
  | _, _ => none

/-- The message of the sale that an accepted call was: its request is the chat message of
the code that began the sale. -/
def messageOf (since asked : Behaviors) (c : GameCall) : Option Sell.Message :=
  match c with
  | .chat _ => if since.sell.isNone && asked.sell.isSome then some .request else none
  | c => if c.transfers then some .transfer else none

def stampOf (since asked : Behaviors) (c : GameCall) (answer : Except Failure c.Reply) :
    Option Sell.Message :=
  if answer.isOk then messageOf since asked c else none

/-- What the code of a round does to the sale up to a call or to its end. -/
inductive Trades (g : Opening) (c : Option GameCall) (s : Behaviors) : Prop where
  | kept {sale : Sell} (hold : g.state.sell = some sale) (hsnapshot : g.snapshot = none)
      (hstamp : g.stamp = none) (hsell : s.sell = some sale)
      (hc : c.all fun c => !c.transfers)
  | none (hsell : s.sell = none) (hc : c.all fun c => !c.transfers)
  | begun {sale : Sell} (hold : g.state.sell = none) (hsell : s.sell = some sale)
      (hsale : sale = { id := sale.id, requested := g.state.now })
        (hc : c.all fun c => !c.transfers)
  | stamped {sale : Sell} {m : Sell.Message} (hold : g.state.sell = some sale)
      (hsnapshot : g.snapshot = none) (hstamp : g.stamp = some m)
      (hsell : s.sell = some (sale.stamp g.state.now m)) (hc : c = none)
  | absent {sale : Sell} {inventory : GameInventory} (hold : g.state.sell = some sale)
      (hsnapshot : g.snapshot = some inventory) (hstamp : g.stamp = none)
      (hlate : sale.opened = none → g.state.now - sale.requested < 10_000)
      (hlong : ∀ t ∈ sale.opened, g.state.now - t < 120_000)
      (hmenu : sale.menu = "") (hsell : s.sell = some sale) (hc : c = none)
  | read {sale sale' : Sell} {inventory : GameInventory} (hold : g.state.sell = some sale)
      (hsnapshot : g.snapshot = some inventory) (hstamp : g.stamp = none)
      (hlate : sale.opened = none → g.state.now - sale.requested < 10_000)
      (hlong : ∀ t ∈ sale.opened, g.state.now - t < 120_000)
      (hopen : inventory.containerSlots ≠ [])
      (hreads : sale.Reads s.game.transferAll inventory g.state.now sale' c)
      (hsell : s.sell = some sale')

structure Piece (g : Opening) (c : Option GameCall) (s : Behaviors) : Prop where
  /-- A sale and a menu task exclude each other. -/
  apart : s.sell = none ∨ s.foreground = none
  game : s.game = g.state.game
  trades : Trades g c s

/-- What other code leaves of the variables while the round waits. -/
structure Drift (s s' : Behaviors) : Prop where
  sell : ∀ sale' ∈ s'.sell, (sale' ∈ s.sell ∨ ∃ sale ∈ s.sell, sale' = sale.confirm) ∧
    s'.generation = s.generation
  foreground : s.foreground = none → s'.foreground = none
  game : s'.game = s.game

def sales : Protocol Behaviors GameCall GameCall.Reply Failure Opening where
  call g c s := Piece g (some c) s
  back _ _ s _ s' := Drift s s'
  next g c s a s' := ⟨s', snapshotOf c a, stampOf g.state s c a⟩

/-- The end of the code of a round. -/
def Closes {α : Type} (g : Opening) (_ : Except Failure α) (s : Behaviors) : Prop := Piece g none s

theorem Trades.congr {g : Opening} {c : Option GameCall} {s t : Behaviors} (h : Trades g c s)
    (hsell : t.sell = s.sell) (hgame : t.game = s.game) : Trades g c t := by
  cases h with
  | kept hold hsnapshot hstamp hs hc => exact .kept hold hsnapshot hstamp (hsell.trans hs) hc
  | none hs hc => exact .none (hsell.trans hs) hc
  | begun hold hs hsale hc => exact .begun hold (hsell.trans hs) hsale hc
  | stamped hold hsnapshot hstamp hs hc => exact .stamped hold hsnapshot hstamp (hsell.trans hs) hc
  | absent hold hsnapshot hstamp hlate hlong hmenu hs hc =>
      exact .absent hold hsnapshot hstamp hlate hlong hmenu (hsell.trans hs) hc
  | read hold hsnapshot hstamp hlate hlong hopen hreads hs =>
      exact .read hold hsnapshot hstamp hlate hlong hopen (hgame ▸ hreads) (hsell.trans hs)

/-! ### Code without a sale -/

variable {g : Opening} {s : Behaviors}

/-- There is no sale, and no code but that of sales begins one. -/
structure Idle (g : Opening) (s : Behaviors) : Prop where
  sell : s.sell = none
  game : s.game = g.state.game

theorem Idle.piece (h : Idle g s) {c : Option GameCall} (hc : c.all fun c => !c.transfers) :
    Piece g c s := ⟨.inl h.sell, h.game, .none h.sell hc⟩

theorem Drift.idle {s' : Behaviors} (hd : Drift s s') (h : s.sell = none) : s'.sell = none := by
  cases hs' : s'.sell with
  | none => rfl
  | some sale' =>
      have hsale' := (hd.sell sale' hs').1
      simp [h] at hsale'

def tradeless (s : Behaviors) : Option Sell × GameGateway := (s.sell, s.game)

def NotTransfer (c : GameCall) : Prop := c.transfers = false

/-- The task has nothing to do with sales. -/
abbrev Tradeless {α : Type} (t : Code α) : Prop := t.Within tradeless NotTransfer

theorem Tradeless.follows {α : Type} {t : Code α} (ht : Tradeless t) (h : Idle g s) :
    t.Follows sales (fun g _ s => Idle g s) g s := by
  apply Within.follows ht (I := Idle) ?_ ?_ h
  · intro g s s' hs hidle
    simp only [tradeless, Prod.mk.injEq] at hs
    exact ⟨hs.1.trans hidle.sell, hs.2.trans hidle.game⟩
  · intro g c s hc hidle
    have hcall : ¬ c.transfers = true := by simpa [NotTransfer] using hc
    exact ⟨hidle.piece (by simpa using hcall), fun a s' hd => ⟨hd.idle hidle.sell, rfl⟩⟩

theorem Idle.closes {α : Type} (h : Idle g s) {r : Except Failure α} : Closes g r s := h.piece rfl

theorem Tradeless.closes {t : Code Unit} (ht : Tradeless t) (h : Idle g s) :
    t.Follows sales Closes g s := (ht.follows h).mono fun _ _ _ hg => hg.closes

theorem Tradeless.bind_closes {α : Type} {t : Code α} {f : α → Code Unit} (ht : Tradeless t)
    (hf : ∀ g a s, Idle g s → (f a).Follows sales Closes g s) (h : Idle g s) :
    (t >>= f).Follows sales Closes g s :=
  (ht.follows h).bind hf fun _ _ _ hg => hg.closes

theorem InForeground.tradeless {α : Type} {t : Code α} (h : InForeground t) : Tradeless t := by
  refine h.mono (fun s s' hs => ?_) fun c hc => ?_
  · exact (congrArg Behaviors.tradeless hs :
      s.foregroundAside.tradeless = s'.foregroundAside.tradeless)
  · cases c with
    | click menu slot action =>
        cases action with
        | transfer => exact absurd rfl hc
        | _ => rfl
    | transferAll menu => exact hc.elim
    | _ => rfl

/-! ### Code beside sales -/

/-- The variables of sales and menu tasks. -/
structure Menus where
  sell : Option Sell
  foreground : Option Foreground
  generation : ℕ
  game : GameGateway

def menus (s : Behaviors) : Menus := ⟨s.sell, s.foreground, s.generation, s.game⟩

/-- Calls that do not concern the open menu. -/
def Elsewhere : GameCall → Prop
  | .inventory | .click .. | .transferAll _ | .close _ => False
  | _ => True

/-- The task does not work in menus. -/
abbrev OffMenus {α : Type} (t : Code α) : Prop := t.Within menus Elsewhere

theorem OffMenus.tradeless {α : Type} {t : Code α} (h : OffMenus t) : Tradeless t := by
  refine h.mono (fun s s' hs => ?_) fun c hc => ?_
  · simp only [menus, Menus.mk.injEq] at hs
    simp only [Behaviors.tradeless, hs]
  · cases c with
    | inventory | click | transferAll | close => exact hc.elim
    | _ => rfl

theorem recoveringHome_offMenus (pending : Bool) : OffMenus (recoveringHome pending) :=
  .bind within_read fun _ => .when _ (within_perform.mpr trivial)

theorem settleHomeGate_offMenus : OffMenus settleHomeGate := by
  refine .bind within_read fun s => ?_
  split
  · exact .bind (recoveringHome_offMenus _) fun _ => within_update.mpr fun _ => rfl
  · exact within_pure ()

theorem settleSavedHome_offMenus : OffMenus settleSavedHome := by
  refine .bind within_read fun s => ?_
  split
  · refine .bind (.when _ (within_perform.mpr trivial)) fun _ => within_update.mpr fun s => ?_
    split <;> rfl
  · exact within_pure ()

theorem menus_runSneakChecks (s : Behaviors) (n : ℤ) : menus (s.runSneakChecks n) = menus s := by
  simp only [runSneakChecks, checkSneak]
  split_ifs <;> rfl

theorem reassertSneak_offMenus (n : ℤ) : OffMenus (reassertSneak n) := by
  refine .bind (within_update.mpr fun s => menus_runSneakChecks s n) fun _ => ?_
  refine .bind within_read fun s => .when _ (.orCatch ?_ fun _ => within_update.mpr fun _ => rfl)
  exact .bind (within_perform.mpr trivial) fun _ => within_update.mpr fun _ => rfl

theorem creditReady_offMenus (n : ℤ) : OffMenus (creditReady n) := by
  refine .bind (within_update.mpr fun s => ?_) fun _ => .bind within_read fun _ => within_pure _
  simp only [earnCredits]
  split_ifs <;> rfl

theorem suspendSell_offMenus (durationMs : ℤ) : OffMenus (suspendSell durationMs) :=
  .bind within_read fun _ => .when _ (within_perform.mpr trivial)

theorem emitting_offMenus (event : BotEvent) : OffMenus (emitting event) :=
  within_update.mpr fun _ => rfl

theorem dispatch_offMenus (text : String) (automatic : Bool) :
    OffMenus (dispatch text automatic) := by
  unfold dispatch
  split
  · exact .bind (emitting_offMenus _) fun _ => within_fail _
  · exact .bind (within_perform.mpr trivial) fun _ => .when _ (within_update.mpr fun _ => rfl)

theorem returnHome_offMenus (n : ℤ) : OffMenus (returnHome n) := by
  refine .bind (within_update.mpr fun _ => rfl) fun _ => .bind within_read fun s => ?_
  refine .orCatch (.bind (dispatch_offMenus _ _) fun _ => within_update.mpr fun _ =>
    rfl) fun error => ?_
  refine within_update.mpr fun s => ?_
  split <;> rfl

theorem navigate_offMenus (text : String) : OffMenus (navigate text) :=
  .bind (within_update.mpr fun _ => rfl) fun _ => .bind (recoveringHome_offMenus false) fun _ =>
    .when _ (within_update.mpr fun _ => rfl)

theorem typeCommand_offMenus (text : String) : OffMenus (typeCommand text) := by
  refine .bind (within_update.mpr fun s => ?_) fun _ =>
    .bind (.when _ (navigate_offMenus text)) fun _ => ?_
  · split <;> rfl
  · refine .bind (dispatch_offMenus _ _) fun _ => .bind (within_update.mpr fun _ => rfl) fun _ => ?_
    exact .bind (.when _ (within_update.mpr fun _ => rfl)) fun _ => emitting_offMenus _

theorem requestReturn_offMenus : OffMenus requestReturn :=
  .bind (within_update.mpr fun _ => rfl) fun _ => .bind within_read fun _ =>
    recoveringHome_offMenus _

/-! ### Commands and menu tasks -/

theorem openMenu_tradeless (type : CommandType) : Tradeless (openMenu type) := by
  refine .bind within_read fun s => .orCatch (within_perform.mpr rfl) fun error => ?_
  split
  · exact within_pure _
  · exact within_fail _

theorem readMultipliers_tradeless (generation : ℕ) (menu : String) :
    Tradeless (readMultipliers generation menu) :=
  .bind (dispatch_offMenus _ _).tradeless fun _ => .bind within_read fun _ =>
    .when _ (setForeground_inForeground _).tradeless

theorem cleanSpawner_tradeless (generation : ℕ) (menu : String) :
    Tradeless (cleanSpawner generation menu) := by
  refine .bind within_read fun s => .bind (within_perform.mpr rfl) fun opened => ?_
  split
  · exact .bind within_read fun _ => .when _ (setForeground_inForeground _).tradeless
  · exact within_update.mpr fun _ => rfl

/-- Nothing has happened to the sale since the code began, which did not begin for it. -/
structure Rests (g : Opening) (s : Behaviors) : Prop where
  menus : menus s = menus g.state
  apart : s.sell = none ∨ s.foreground = none
  aside : s.sell = none ∨ g.snapshot = none ∧ g.stamp = none

theorem Rests.piece (h : Rests g s) {c : Option GameCall} (hc : c.all fun c => !c.transfers) :
    Piece g c s := by
  have hmenus := h.menus
  simp only [Behaviors.menus, Menus.mk.injEq] at hmenus
  refine ⟨h.apart, hmenus.2.2.2, ?_⟩
  cases hsell : s.sell with
  | none => exact .none hsell hc
  | some sale =>
      obtain hnone | ⟨hsnapshot, hstamp⟩ := h.aside
      · simp [hsell] at hnone
      · exact .kept (hmenus.1 ▸ hsell) hsnapshot hstamp hsell hc

theorem Rests.closes {α : Type} (h : Rests g s) {r : Except Failure α} : Closes g r s := h.piece rfl

theorem Rests.idle (h : Rests g s) (hsell : s.sell = none) : Idle g s := by
  have hmenus := h.menus
  simp only [Behaviors.menus, Menus.mk.injEq] at hmenus
  exact ⟨hsell, hmenus.2.2.2⟩

theorem Drift.apart {s' : Behaviors} (hd : Drift s s') (h : s.sell = none ∨ s.foreground = none) :
    s'.sell = none ∨ s'.foreground = none :=
  h.imp hd.idle hd.foreground

theorem elsewhere_transfers {c : GameCall} (h : Elsewhere c) : c.transfers = false := by
  cases c with
  | inventory | click | transferAll | close => exact h.elim
  | _ => rfl

/-- The answer to a call that does not concern the menu is not one to the sale. -/
theorem Rests.next {c : GameCall} (hc : Elsewhere c) (h : Rests g s) {a : Except Failure c.Reply}
    {s' : Behaviors} (hd : Drift s s') : Rests (sales.next g c s a s') s' := by
  refine ⟨rfl, hd.apart h.apart, .inr ⟨?_, ?_⟩⟩
  · cases c with
    | inventory => exact hc.elim
    | _ => rfl
  · have hmenus := h.menus
    simp only [Behaviors.menus, Menus.mk.injEq] at hmenus
    have hmessage : messageOf g.state s c = none := by
      unfold messageOf
      split
      · rw [← hmenus.1]
        cases s.sell <;> rfl
      · simp [elsewhere_transfers hc]
    simp [sales, stampOf, hmessage]

theorem OffMenus.follows {α : Type} {t : Code α} (ht : OffMenus t) (h : Rests g s) :
    t.Follows sales (fun g _ s => Rests g s) g s := by
  apply Within.follows ht (I := Rests) ?_ ?_ h
  · intro g s s' hs hrests
    have hmenus := hs
    simp only [Behaviors.menus, Menus.mk.injEq] at hmenus
    refine ⟨hs.trans hrests.menus, ?_, ?_⟩
    · rw [hmenus.1, hmenus.2.1]
      exact hrests.apart
    · rw [hmenus.1]
      exact hrests.aside
  · intro g c s hc hrests
    exact ⟨hrests.piece (by simp [elsewhere_transfers hc]), fun a s' hd => hrests.next hc hd⟩

/-- Code that begins beside the sale. -/
theorem OffMenus.bind_closes {α : Type} {t : Code α} {f : α → Code Unit} (ht : OffMenus t)
    (hf : ∀ g a s, Rests g s → (f a).Follows sales Closes g s) (h : Rests g s) :
    (t >>= f).Follows sales Closes g s :=
  (ht.follows h).bind hf fun _ _ _ hg => hg.closes

theorem OffMenus.closes {t : Code Unit} (ht : OffMenus t) (h : Rests g s) :
    t.Follows sales Closes g s := (ht.follows h).mono fun _ _ _ hg => hg.closes

theorem runCommand_closes (command : Command) (h : Rests g s) :
    (runCommand command).Follows sales Closes g s := by
  apply (suspendSell_offMenus 5000).bind_closes ?_ h
  intro g _ s hg
  apply follows_read_bind.mpr
  apply follows_update_bind.mpr
  have hmenus := hg.menus
  simp only [Behaviors.menus, Menus.mk.injEq] at hmenus
  have hidle : Idle g { s with sell := none, foreground := none } := ⟨rfl, hmenus.2.2.2⟩
  refine Tradeless.closes (.bind (openMenu_tradeless _) fun inventory => ?_) hidle
  refine .bind (.when _ (within_perform.mpr rfl)) fun _ =>
    .bind (within_update.mpr fun _ => rfl) fun _ => ?_
  cases command.type with
  | readSellMultipliers => exact readMultipliers_tradeless _ _
  | cleanSpawner => exact cleanSpawner_tradeless _ _
  | chat =>
      dsimp only
      split
      · exact (typeCommand_offMenus _).tradeless
      · exact within_pure ()

/-! ### Giving a sale up -/

theorem closeOwned_tradeless (menu : String) : Tradeless (closeOwned menu) :=
  (closeOwned_inForeground menu).tradeless

theorem cancelSell_idle (hgame : s.game = g.state.game) :
    cancelSell.Follows sales (fun g _ s => Idle g s) g s := by
  apply follows_read_bind.mpr
  apply follows_update_bind.mpr
  have hidle : Idle g { s with sell := none } := ⟨rfl, hgame⟩
  cases s.sell with
  | none => exact hidle
  | some sale => exact Tradeless.follows (.when _ (closeOwned_tradeless _)) hidle

theorem failSell_closes (reason : String) (hgame : s.game = g.state.game) :
    (failSell reason).Follows sales Closes g s := by
  refine (cancelSell_idle hgame).bind (fun g _ s hidle => ?_) fun g e s hidle => hidle.closes
  apply follows_update.mpr
  apply Idle.closes
  dsimp only
  split
  · exact ⟨hidle.sell, hidle.game⟩
  · exact ⟨hidle.sell, hidle.game⟩

theorem applySell_closes (config : BehaviorConfig) (changed : Bool) (h : Rests g s) :
    (applySell config changed).Follows sales Closes g s := by
  have hstamp : Tradeless
    (.when changed (.update fun s : Behaviors => { s with nextSell := s.now })) :=
    .when _ (within_update.mpr fun _ => rfl)
  have hoff : OffMenus (.when changed (.update fun s : Behaviors =>
    { s with nextSell := s.now })) :=
    .when _ (within_update.mpr fun _ => rfl)
  apply follows_bind.mpr
  apply follows_when.mpr
  split
  · have hmenus := h.menus
    simp only [Behaviors.menus, Menus.mk.injEq] at hmenus
    refine (cancelSell_idle hmenus.2.2.2).mono fun g r s hidle => ?_
    cases r with
    | ok => exact hstamp.closes hidle
    | error e => exact hidle.closes
  · exact hoff.closes h

/-! ### Messages of a sale -/

@[simp] theorem updateSell_game (s : Behaviors) (id : ℕ) (f : Sell → Sell) :
    (s.updateSell id f).game = s.game := rfl

theorem updateSell_of_none (h : s.sell = none) (id : ℕ) (f : Sell → Sell) :
    (s.updateSell id f).sell = none := by
  simp [updateSell, h]

theorem updateSell_of_eq {sale : Sell} {id : ℕ} (hsell : s.sell = some sale) (hid : sale.id = id)
    (f : Sell → Sell) : (s.updateSell id f).sell = some (f sale) := by
  simp [updateSell, hsell, hid]

/-- A sale that waited for an answer. -/
theorem Drift.cases {s' : Behaviors} (hd : Drift s s') {sale : Sell} (hsell : s.sell = some sale) :
    s'.sell = none ∨
      (s'.sell = some sale ∨ s'.sell = some sale.confirm) ∧ s'.generation = s.generation := by
  cases hs' : s'.sell with
  | none => exact .inl rfl
  | some sale' =>
      obtain ⟨hsale', hgeneration⟩ := hd.sell sale' hs'
      simp only [hsell, Option.mem_def, Option.some.injEq, exists_eq_left'] at hsale'
      refine .inr ⟨?_, hgeneration⟩
      obtain rfl | rfl := hsale'
      · exact .inl rfl
      · exact .inr rfl

theorem messageOf_transfers {c : GameCall} (hc : c.transfers = true) (since asked : Behaviors) :
    messageOf since asked c = some .transfer ∧ ∀ a, snapshotOf c a = none := by
  cases c with
  | click menu slot action => exact ⟨by simp [messageOf, hc], fun a => rfl⟩
  | transferAll menu => exact ⟨rfl, fun a => rfl⟩
  | _ => simp [GameCall.transfers] at hc

/-- A transfer goes out; its answer stamps it, or fails the sale unless a payout came first. -/
theorem sendTransfer_closes {id : ℕ} {sale sale' : Sell} {transfer : Transfer} {c : GameCall}
    {next : Except Failure c.Reply → Code Unit} (hok : ∀ a, next (.ok a) = .done ())
    (herror : ∀ e, next (.error e) = .fail e) (hc : c.transfers = true) (hsell : s.sell = some sale)
      (hsale : sale.id = id)
    (hsale' : sale' = { sale with pending := some transfer }) (hforeground : s.foreground = none)
    (hgame : s.game = g.state.game)
    (htrades : ∀ t : Behaviors, t.sell = some sale' → t.game = s.game → Trades g (some c) t) :
    (sendTransfer id transfer (.call c next)).Follows sales Closes g s := by
  have hsent : (s.updateSell id fun sale => { sale with pending := some transfer }).sell =
      some sale' := by
    rw [updateSell_of_eq hsell hsale, hsale']
  have hid : sale'.id = id := by rw [hsale', ← hsale]
  apply follows_update_bind.mpr
  apply follows_orCatch.mpr
  apply follows_bind.mpr
  refine ⟨⟨.inr hforeground, hgame, htrades _ hsent rfl⟩, fun a s' hd => ?_⟩
  obtain ⟨hmessage, hsnapshot⟩ := messageOf_transfers hc g.state
    (s.updateSell id fun sale => { sale with pending := some transfer })
  have hquiet := hsnapshot a
  have hnone : s'.sell = none ∨ s'.foreground = none := .inr (hd.foreground hforeground)
  generalize hg' : sales.next g c _ a s' = g'
  have hstate : g'.state = s' := by rw [← hg']; rfl
  have hsnap : g'.snapshot = none := by rw [← hg']; exact hquiet
  cases a with
  | ok value =>
      rw [hok value]
      have hstamp : g'.stamp = some .transfer := by
        rw [← hg']
        simpa [sales, stampOf, Except.isOk, Except.toBool] using hmessage
      change Piece g' none (s'.updateSell id fun sale =>
        { sale with pending := sale.pending.map fun p => { p with sentAt := s'.now } })
      obtain hgone | ⟨hsame, -⟩ := hd.cases hsent
      · have hidle (f : Sell → Sell) : Idle g' (s'.updateSell id f) :=
          ⟨updateSell_of_none hgone _ _, by rw [hstate, updateSell_game]⟩
        exact (hidle _).piece rfl
      · obtain ⟨sale'', hsell'', hid''⟩ : ∃ sale'', s'.sell = some sale'' ∧ sale''.id = id := by
          obtain hsame | hsame := hsame
          · exact ⟨sale', hsame, hid⟩
          · exact ⟨sale'.confirm, hsame, hid⟩
        refine ⟨hnone.imp (updateSell_of_none · _ _) fun h =>
          h, by rw [hstate, updateSell_game], ?_⟩
        refine @Trades.stamped _ _ _ sale'' .transfer (hstate ▸ hsell'') hsnap hstamp ?_ rfl
        rw [updateSell_of_eq hsell'' hid'', hstate]
        rfl
  | error e =>
      rw [herror e]
      have hstamp : g'.stamp = none := by
        rw [← hg']
        rfl
      change (Task.when (s'.sell.any fun t => t.id = id && !t.pending.any (·.confirmed))
        (failSell "Item-Transfer wurde abgelehnt")).Follows sales Closes g' s'
      apply follows_when.mpr
      split
      · exact failSell_closes _ (by rw [hstate])
      · exact Rests.closes ⟨by rw [hstate], hnone, .inr ⟨hsnap, hstamp⟩⟩

/-! ### Reading a snapshot -/

/-- The sale reads a snapshot: nothing else happened since the code began. -/
structure Looks (g : Opening) (s : Behaviors) (sale : Sell) (inventory : GameInventory) : Prop where
  state : g.state.sell = some sale
  snapshot : g.snapshot = some inventory
  stamp : g.stamp = none
  foreground : s.foreground = none
  game : s.game = g.state.game

/-- The sale is not too old to go on. -/
structure InTime (sale : Sell) (now : ℤ) : Prop where
  late : sale.opened = none → now - sale.requested < 10_000
  long : ∀ t ∈ sale.opened, now - t < 120_000

variable {sale : Sell} {inventory : GameInventory}

theorem Looks.update (h : Looks g s sale inventory) (id : ℕ) (f : Sell → Sell) :
    Looks g (s.updateSell id f) sale inventory :=
  ⟨h.state, h.snapshot, h.stamp, h.foreground, h.game⟩

theorem Looks.piece (h : Looks g s sale inventory) (htime : InTime sale g.state.now)
    (hopen : inventory.containerSlots ≠ []) {sale' : Sell} {c : Option GameCall}
    (hreads : sale.Reads s.game.transferAll inventory g.state.now sale' c)
    (hsell : s.sell = some sale') : Piece g c s :=
  ⟨.inr h.foreground, h.game,
    .read h.state h.snapshot h.stamp htime.late htime.long hopen hreads hsell⟩

theorem transferNext_closes (h : Looks g s sale inventory) (htime : InTime sale g.state.now)
    (hopen : inventory.containerSlots ≠ []) (hfree : sale.waits inventory = false)
    (hsell : s.sell = some { sale.bind inventory g.state.now with
      targets := some (sale.aims inventory), pending := none }) :
    (transferNext sale.id (sale.aims inventory) inventory g.state.now).Follows sales Closes g
      s := by
  have hcancel (s : Behaviors) (h : Looks g s sale inventory) :
      cancelSell.Follows sales Closes g s :=
    (cancelSell_idle h.game).mono fun _ _ _ hidle => hidle.closes
  apply follows_read_bind.mpr
  split
  · rename_i hall
    have hcleared := updateSell_of_eq hsell rfl fun sale => { sale with targets := some [] }
    apply follows_update_bind.mpr
    split
    · exact hcancel _ (h.update _ _)
    · rename_i item items hitems
      refine sendTransfer_closes (fun _ => rfl) (fun _ => rfl) rfl hcleared rfl rfl h.foreground
        h.game fun t ht hgame => ?_
      simp only [Bool.and_eq_true, decide_eq_true_eq] at hall
      refine .read h.state h.snapshot h.stamp htime.late htime.long hopen
        (.sendingAll ?_ hfree hall.2 hitems) ht
      rw [hgame]
      exact hall.1
  · rename_i hall
    split
    · exact hcancel s h
    · rename_i target targets haims
      have hone : s.game.transferAll = false := by simpa [haims] using hall
      have hshifted := updateSell_of_eq hsell rfl fun sale => { sale with targets := some targets }
      apply follows_update_bind.mpr
      split
      · exact (h.update _ _).piece htime hopen (.skipping hone hfree haims) hshifted
      · rename_i item hitem
        refine sendTransfer_closes (fun _ => rfl)
          (fun _ => rfl) rfl hshifted rfl rfl h.foreground h.game fun t ht hgame => ?_
        refine .read h.state h.snapshot h.stamp htime.late htime.long hopen
          (.sending ?_ hfree haims hitem) ht
        rw [hgame]
        exact hone

theorem advanceSale_closes (h : Looks g s sale inventory) (htime : InTime sale g.state.now)
    (hopen : inventory.containerSlots ≠ []) (hsell : s.sell = some sale) {opened : ℤ}
    (hopened : opened = if sale.menu = "" then g.state.now else sale.opened.getD g.state.now) :
    (advanceSale sale opened inventory g.state.now).Follows sales Closes g s := by
  have hbind : { sale with menu := inventory.menuId, opened := some opened } =
      sale.bind inventory g.state.now := by
    rw [hopened]
    rfl
  have hbound := updateSell_of_eq hsell rfl fun t => { t with
    menu := inventory.menuId, opened := some opened }
  have hlook := h.update sale.id fun t => { t with menu := inventory.menuId, opened := some opened }
  rw [hbind] at hbound
  apply follows_update_bind.mpr
  generalize s.updateSell sale.id _ = t at hbound hlook
  apply follows_when.mpr
  split
  · have haimed := updateSell_of_eq hbound rfl fun t => { t with
      targets := some (sale.targets.getD inventory.populated) }
    have hlook := hlook.update sale.id fun t => { t with
      targets := some (sale.targets.getD inventory.populated) }
    apply follows_update_bind.mpr
    dsimp only
    split
    · rename_i hwaits
      apply follows_when.mpr
      split
      · exact failSell_closes _ hlook.game
      · rename_i hearly
        refine hlook.piece htime hopen (.holding hwaits fun p hp => ?_) haimed
        simpa [Option.mem_def.mp hp] using hearly
    · rename_i hfree
      have hfreed := updateSell_of_eq haimed rfl fun t => { t with pending := none }
      apply follows_update_bind.mpr
      exact transferNext_closes (hlook.update _ _) htime hopen
        (eq_false_of_ne_true hfree) hfreed
  · rename_i hloading
    have htargets : sale.targets = none := by
      cases htargets : sale.targets with
      | none => rfl
      | some targets => simp [htargets] at hloading
    exact hlook.piece htime hopen (.loading htargets) hbound

theorem continueSale_closes (h : Looks g s sale inventory) (hsell : s.sell = some sale) :
    (continueSale sale inventory g.state.now).Follows sales Closes g s := by
  have hgone (t : Behaviors) (hgame : t.game = s.game) (ht : t.sell = none) : Piece g none t :=
    Idle.piece ⟨ht, hgame.trans h.game⟩ rfl
  unfold continueSale
  split
  · exact failSell_closes _ h.game
  rename_i hlate
  split
  · exact failSell_closes _ h.game
  rename_i hlong
  have htime : InTime sale g.state.now := by
    constructor
    · simpa using hlate
    · intro t ht
      simpa [Option.mem_def.mp ht] using hlong
  split
  · apply follows_when.mpr
    split
    · exact hgone _ rfl rfl
    · rename_i hmenu
      exact ⟨.inr h.foreground, h.game, .absent h.state h.snapshot h.stamp htime.late htime.long
        (by simpa using hmenu) hsell rfl⟩
  rename_i hopen
  split
  · exact hgone _ rfl rfl
  · exact advanceSale_closes h htime hopen hsell rfl

/-! ### Ticks -/

/-- The sale `id` has asked for its menu. -/
structure Asking (id : ℕ) (g : Opening) (s : Behaviors) : Prop where
  game : s.game = g.state.game
  sell : ∀ sale ∈ s.sell, sale.id = id

/-- The game has accepted the request of the sale `id`. -/
structure Granted (id generation : ℕ) (g : Opening) (s : Behaviors) : Prop where
  state : g.state = s
  snapshot : g.snapshot = none
  stamp : g.stamp = some .request
  foreground : s.foreground = none
  generation : s.sell ≠ none → s.generation = generation

theorem dispatch_asks {generation id : ℕ} (text : String) (hstate : g.state.sell = none)
    (hgame : s.game = g.state.game) (hforeground : s.foreground = none)
    (hgeneration : s.generation = generation)
    (hsell : s.sell = some { id := id, requested := g.state.now }) :
    (dispatch text true).Follows sales
      (fun g r s => Asking id g s ∧ (r = .ok () → Granted id generation g s)) g s := by
  have hasking : Asking id g s := by
    refine ⟨hgame, fun sale hsale => ?_⟩
    rw [hsell] at hsale
    cases hsale
    rfl
  unfold dispatch
  split
  · exact ⟨⟨hasking.game, hasking.sell⟩, nofun⟩
  · apply follows_bind.mpr
    apply follows_perform.mpr
    refine ⟨⟨.inr hforeground, hgame, .begun hstate hsell rfl rfl⟩, fun a s' hd => ?_⟩
    have hlater : Asking id (sales.next g (.chat text) s a s') s' := by
      refine ⟨rfl, fun sale hsale => ?_⟩
      obtain hgone | ⟨hsame | hsame, -⟩ := hd.cases hsell
      · simp [hgone] at hsale
      · rw [hsame] at hsale
        cases hsale
        rfl
      · rw [hsame] at hsale
        cases hsale
        rfl
    cases a with
    | error e => exact ⟨hlater, nofun⟩
    | ok a =>
        refine ⟨hlater, fun _ => ⟨rfl, rfl, ?_, hd.foreground hforeground, fun hs' => ?_⟩⟩
        · simp [sales, stampOf, messageOf, Except.isOk, Except.toBool, hstate, hsell]
        · obtain hgone | ⟨-, hsame⟩ := hd.cases hsell
          · exact absurd hgone hs'
          · exact hsame.trans hgeneration

/-- A sale begins with its request, and a request that fails ends it. -/
theorem startSale_closes (generation : ℕ) (hstate : g.state = s) (hsell : s.sell = none)
    (hforeground : s.foreground = none) (hgeneration : s.generation = generation) :
    (startSale generation s.now).Follows sales Closes g s := by
  apply follows_read_bind.mpr
  apply follows_update_bind.mpr
  generalize hid : s.nextId = id
  have hasked : (dispatch s.sellCommand true).Follows sales
      (fun g r s => Asking id g s ∧ (r = .ok () → Granted id generation g s)) g
      { s with sell := some { id := id, requested := s.now }, nextId := id + 1 } :=
    dispatch_asks _ (hstate ▸ hsell) (by rw [hstate]) hforeground hgeneration (by rw [hstate])
  refine Follows.bind (Q := fun g r s => (r = .ok () → Asking id g s ∧ Granted id generation g s) ∧
    ∀ e, r = .error e → Closes g r s) (hasked.orCatch ?_ ?_) ?_ ?_
  · exact fun g a t hg => ⟨fun _ => ⟨hg.1, hg.2 rfl⟩, nofun⟩
  · intro g e t hg
    apply follows_update_bind.mpr
    refine ⟨nofun, fun _ _ => Idle.closes ?_⟩
    split
    · exact ⟨rfl, hg.1.game⟩
    · rename_i hgone
      refine ⟨Option.eq_none_iff_forall_ne_some.mpr fun sale hsale => hgone ?_, hg.1.game⟩
      simp [selling, hsale, hg.1.sell sale hsale]
  · intro g a t hg
    obtain ⟨hasking, hgranted⟩ := hg.1 rfl
    apply follows_read_bind.mpr
    apply follows_when.mpr
    cases hsale : t.sell with
    | none =>
        rw [if_neg (by simp [selling, hsale])]
        exact Idle.closes ⟨hsale, hasking.game⟩
    | some sale =>
        have hid := hasking.sell sale hsale
        have hsame := hgranted.generation (by simp [hsale])
        rw [if_pos (by simp [selling, hsale, hid, hsame])]
        refine ⟨.inr hgranted.foreground, hasking.game, ?_⟩
        refine .stamped (hgranted.state ▸ hsale) hgranted.snapshot hgranted.stamp ?_ rfl
        exact (updateSell_of_eq hsale hid _).trans (by rw [hgranted.state]; rfl)
  · exact fun g e t hg => hg.2 e rfl

theorem tickSell_closes (now : ℤ) (hforeground : s.foreground = none) (h : Rests g s) :
    (tickSell now).Follows sales Closes g s := by
  apply follows_read_bind.mpr
  apply follows_when.mpr
  split
  · apply follows_bind.mpr
    apply follows_perform.mpr
    refine ⟨h.piece rfl, fun a t hd => ?_⟩
    have hfree := hd.foreground hforeground
    cases a with
    | error e => exact Rests.closes ⟨rfl, .inr hfree, .inr ⟨rfl, rfl⟩⟩
    | ok inventory =>
        apply follows_read_bind.mpr
        apply follows_when.mpr
        cases hsell : t.sell with
        | none =>
            have hidle : Idle (sales.next g .inventory s (.ok inventory) t) t := ⟨hsell, rfl⟩
            split
            · rename_i hsame
              dsimp only
              split
              · refine Tradeless.closes (.when _ (.bind (within_perform.mpr rfl) fun _ => ?_)) hidle
                exact within_update.mpr fun _ => rfl
              · apply follows_when.mpr
                split
                · exact startSale_closes _ rfl hsell hfree (by simpa using hsame)
                · exact hidle.closes
            · exact hidle.closes
        | some sale =>
            have hsame := (hd.sell sale hsell).2
            rw [if_pos (by simpa using hsame)]
            have hlooks : Looks (sales.next g .inventory s (.ok inventory) t) t sale inventory :=
              ⟨hsell, rfl, rfl, hfree, rfl⟩
            exact continueSale_closes hlooks hsell
  · exact h.closes

theorem tickAutomation_closes (now : ℤ) (h : Rests g s) :
    (tickAutomation now).Follows sales Closes g s := by
  have hmenus := h.menus
  simp only [Behaviors.menus, Menus.mk.injEq] at hmenus
  apply follows_read_bind.mpr
  split
  · exact (cancelSell_idle hmenus.2.2.2).mono fun _ _ _ hidle => hidle.closes
  split
  · exact h.closes
  split
  · rename_i hforeground
    refine (tickForeground_inForeground now).tradeless.closes (h.idle ?_)
    exact h.apart.resolve_right (Option.isSome_iff_ne_none.mp hforeground)
  rename_i hforeground
  split
  · have hreturn : OffMenus (creditReady now >>= fun ready => .when ready (returnHome now)) :=
      .bind (creditReady_offMenus now) fun ready => .when ready (returnHome_offMenus now)
    exact OffMenus.closes (.when _ hreturn) h
  · apply follows_when.mpr
    split
    · exact tickSell_closes now (by simpa using hforeground) h
    · exact h.closes

theorem takeCommand_closes (command : Command) (now : ℤ) (h : Rests g s) :
    (takeCommand command now).Follows sales Closes g s := by
  apply (creditReady_offMenus now).bind_closes ?_ h
  intro g ready s hg
  apply follows_when.mpr
  split
  · apply follows_update_bind.mpr
    have hrests : Rests g { s with commands := s.commands.tail } := ⟨hg.menus, hg.apart, hg.aside⟩
    refine (runCommand_closes command hrests).orCatch (fun _ _ _ hg => hg) fun g e s hg => ?_
    exact ⟨hg.apart, hg.game, hg.trades.congr rfl rfl⟩
  · exact hg.closes

theorem tickTasks_closes (now : ℤ) (h : Rests g s) : (tickTasks now).Follows sales Closes g s := by
  apply settleSavedHome_offMenus.bind_closes ?_ h
  intro g _ s hg
  apply follows_read_bind.mpr
  apply follows_when.mpr
  split
  · apply (reassertSneak_offMenus now).bind_closes ?_ hg
    intro g _ s hg
    apply follows_read_bind.mpr
    split
    · exact takeCommand_closes _ now hg
    · exact tickAutomation_closes now hg
  · exact hg.closes

theorem tick_closes (h : Rests g s) : tick.Follows sales Closes g s := by
  apply follows_read_bind.mpr
  apply follows_when.mpr
  split
  · exact settleHomeGate_offMenus.bind_closes (fun g _ s hg => tickTasks_closes _ hg) h
  · exact h.closes

theorem configure_closes (config : BehaviorConfig) (h : Rests g s) :
    (configure config).Follows sales Closes g s := by
  apply follows_read_bind.mpr
  have hheld : OffMenus (.update (·.applyConfig config) >>= fun _ => await (.held config)) := by
    refine .bind (within_update.mpr fun s => ?_) fun _ => within_perform.mpr trivial
    unfold applyConfig
    split <;> rfl
  exact hheld.bind_closes (fun g _ s hg => applySell_closes _ _ hg) h

end Behaviors

end AfkClient
