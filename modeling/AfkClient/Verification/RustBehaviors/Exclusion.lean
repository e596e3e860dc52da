import AfkClient.Library.Run
import AfkClient.Verification.RustBehaviors.Calm
import Mathlib.Data.NNRat.Defs

/-! # Sales, foreground tasks and manual commands

A bot has one interface. A foreground task and a sale are never both under way, and what the bot
does in a menu or in the world belongs to the one that has the interface. -/

namespace AfkClient.RustBehaviors

/-- Acts of a foreground task in a menu or in the world. -/
def Action.isTaskMove : Action → Bool
  | .throwAll _ | .pickupLeft _ | .blockInteract _ => true
  | _ => false

/-- Those, and the acts of a sale. -/
def Action.isMove : Action → Bool
  | .chat _ | .shiftClick .. => true
  | action => action.isTaskMove

namespace BehaviorState

def moves (s : BehaviorState) : List (ℚ × Action) := s.outbox.filter (·.2.isMove)

def Cleaning (s : BehaviorState) : Prop := ∃ p, s.activeTask = some (.cleanSpawner p)

/-- What keeps the automation away from the menus of a user. -/
def guards (s : BehaviorState) : Option ℚ × Option ℚ × Option ℤ :=
  (s.manualPriorityUntil, s.manualMenuGuardUntil, s.manualMenuId)

/-- The state that an event leaves behind if the bot acted in it. -/
def Fits (now : ℚ) (event : Event) (s : BehaviorState) : Action → Prop
  | .chat _ => s.foregroundBusy = false ∧
      (∃ startedEmpty, s.autosellPhase = .waitingForMenu now startedEmpty none) ∧
      ∃ bot, event = .tick bot ∧ s.manualMenuPending bot.sale now = false
  | .shiftClick .. => s.activeTask = none ∧ s.autosellPhase ≠ .idle
  | .throwAll _ | .pickupLeft _ | .blockInteract _ => s.autosellPhase = .idle ∧ s.Cleaning ∧
      ∃ bot, event = .tick bot ∧ s.manualMenuPending bot.foreground now = false
  | _ => True

variable {s t u : BehaviorState} {bot : Client} {now : ℚ}

theorem manualMenuPending_congr (h : t.guards = s.guards) (bot : Client) (now : ℚ) :
    t.manualMenuPending bot now = s.manualMenuPending bot now := by
  simp only [guards, Prod.mk.injEq] at h
  obtain ⟨hpriority, hguard, hmenu⟩ := h
  rw [manualMenuPending, hpriority, hguard, hmenu]
  rfl

/-! ### Steps that do not move -/

@[simp] theorem moves_act (now : ℚ) (action : Action) (s : BehaviorState) :
    (s.act now action).moves = s.moves ++ if action.isMove then [(now, action)] else [] := by
  cases haction : action.isMove <;> simp [moves, act, haction]

@[simp] theorem moves_closeOpenMenu (bot : Client) (now : ℚ) (s : BehaviorState) :
    (s.closeOpenMenu bot now).moves = s.moves := by
  rw [closeOpenMenu]
  split <;> simp [Action.isMove, Action.isTaskMove]

@[simp] theorem moves_closeSellMenu (bot : Client) (now : ℚ) (s : BehaviorState) :
    (s.closeSellMenu bot now).moves = s.moves := by
  rw [closeSellMenu]
  split <;> simp

@[simp] theorem moves_closeCancelledSellMenu (bot : Client) (now : ℚ) (s : BehaviorState) :
    (s.closeCancelledSellMenu bot now).moves = s.moves := by
  rw [closeCancelledSellMenu]
  split <;> simp

@[simp] theorem moves_interruptForTransition (bot : Client) (now : ℚ) (s : BehaviorState) :
    (s.interruptForTransition bot now).moves = s.moves := by
  change (if s.activeTask.isSome then s.closeOpenMenu bot now
    else s.closeSellMenu bot now).moves = s.moves
  split <;> simp

@[simp] theorem moves_onLogin (bot : Client) (now : ℚ) (s : BehaviorState) :
    (s.onLogin bot now).moves = s.moves := moves_interruptForTransition bot now s

@[simp] theorem moves_onSpawn (bot : Client) (now : ℚ) (s : BehaviorState) :
    (s.onSpawn bot now).moves = s.moves := moves_interruptForTransition bot now s

@[simp] theorem moves_recoverLoadedWorld (bot : Client) (now : ℚ) (s : BehaviorState) :
    (s.recoverLoadedWorld bot now).moves = s.moves := by
  rw [recoverLoadedWorld]
  split <;> simp

@[simp] theorem moves_interruptForPause (bot : Client) (now : ℚ) (s : BehaviorState) :
    (s.interruptForPause bot now).moves = s.moves := by
  rw [interruptForPause]
  split <;> simp

theorem moves_settlePosition (hsettle : s.settlePosition bot now = some t) : t.moves = s.moves := by
  unfold settlePosition at hsettle
  split at hsettle
  · split at hsettle
    · cases hsettle
    · obtain rfl := Option.some.inj hsettle
      rfl
  · obtain rfl := Option.some.inj hsettle
    rfl

@[simp] theorem moves_onPositionSync (bot : Client) (now : ℚ) (s : BehaviorState) :
    (s.onPositionSync bot now).moves = s.moves := by
  rw [onPositionSync]
  split
  · rfl
  · rename_i t hsettle
    rw [← moves_settlePosition hsettle]
    split
    · rfl
    · exact moves_interruptForTransition bot now t

@[simp] theorem moves_interruptForCommand (bot : Client) (now : ℚ) (text : List Char)
    (s : BehaviorState) : (s.interruptForCommand bot now text).moves = s.moves := by
  exact moves_closeOpenMenu bot now _

@[simp] theorem moves_commandSent (now : ℚ) (task : ManualTask) (s : BehaviorState) :
    (s.commandSent now task).moves = s.moves := by
  cases task <;> rfl

@[simp] theorem moves_tickManualChat (bot : Client) (sent : Bool) (now : ℚ) (s : BehaviorState) :
    (s.tickManualChat bot sent now).1.moves = s.moves := by
  rw [tickManualChat]
  split
  · rfl
  · simp only
    split
    · rfl
    · split
      · rfl
      · rename_i task queue hqueue
        have hact : ((interruptForCommand bot now task.text
            { s with
              commandBudget := (s.commandBudget.ready now).1
              manualChatQueue := queue }).act now (.manual task sent)).moves = s.moves := by
          rw [moves_act, moves_interruptForCommand]
          exact List.append_nil _
        split
        · rw [moves_commandSent]
          exact hact
        · exact hact

@[simp] theorem moves_advanceSellMultipliers (bot : Client) (now : ℚ) (progress : MultiplierProgress)
    (s : BehaviorState) : (s.advanceSellMultipliers bot now progress).moves = s.moves := by
  rw [advanceSellMultipliers]
  split
  · rfl
  · extract_lets t
    have ht : t.moves = s.moves := by
      simp only [t]
      split <;> rfl
    clear_value t
    generalize ((bot.inventory.map (inspectMultipliers progress.menuId)).getD (none, false)) = read
    obtain ⟨entries, ownsMenu⟩ := read
    cases entries with
    | some entries =>
        have hact := moves_act now (.sellMultipliers entries) (t.closeOpenMenu bot now)
        rw [moves_closeOpenMenu, ht] at hact
        exact hact.trans (List.append_nil _)
    | none =>
        rw [← ht]
        dsimp only
        split
        · cases ownsMenu with
          | true => exact moves_closeOpenMenu bot now t
          | false => rfl
        · rfl

/-! ### Foreground tasks -/

/-- What a foreground task does in a step. -/
structure Works (s s' : BehaviorState) : Prop where
  moves : ∃ done, s'.moves = s.moves ++ done ∧ ∀ e ∈ done, e.2.isTaskMove ∧ s'.Cleaning
  guards : s'.guards = s.guards

theorem Works.still (hmoves : t.moves = s.moves) (hguards : t.guards = s.guards) : Works s t :=
  ⟨⟨[], by rw [hmoves, List.append_nil], by simp⟩, hguards⟩

theorem works_throwAll (now : ℚ) (slots : List ℕ) (p : SpawnerProgress) (s : BehaviorState) :
    Works s { s.throwAll now slots with activeTask := some (.cleanSpawner p) } := by
  refine ⟨⟨slots.map fun slot => (now, .throwAll slot), ?_, ?_⟩, rfl⟩
  · simp [moves, throwAll, List.filter_map, Function.comp_def, Action.isMove, Action.isTaskMove]
  · intro e he
    obtain ⟨slot, -, rfl⟩ := List.mem_map.mp he
    exact ⟨rfl, p, rfl⟩

theorem works_act {action : Action} (haction : action.isTaskMove = true) (p : SpawnerProgress)
    (s : BehaviorState) : Works s { s.act now action with activeTask := some (.cleanSpawner p) } := by
  have hmove : action.isMove = true := by
    cases action <;> first | rfl | exact haction
  refine ⟨⟨[(now, action)], ?_, ?_⟩, rfl⟩
  · have hmoves := moves_act now action s
    rwa [if_pos hmove] at hmoves
  · intro e he
    rw [List.mem_singleton.mp he]
    exact ⟨haction, p, rfl⟩

/-- A task may end with the menu closed, or wait. -/
theorem works_close (now : ℚ) (task : Option ActiveTask) (s : BehaviorState) :
    Works s { s.act now .close with activeTask := task } :=
  .still ((moves_act now .close s).trans (List.append_nil _)) rfl

theorem cleanSpawnerLegacy_works (slots : List ItemStack) (containerLen : ℕ) (now : ℚ)
    (p : SpawnerProgress) (s : BehaviorState) :
    Works s (s.cleanSpawnerLegacy slots containerLen now p) := by
  rw [cleanSpawnerLegacy]
  split
  · exact works_close now none s
  · split
    · exact .still rfl rfl
    · dsimp only
      split
      · exact works_close now none s
      · exact works_throwAll now _ _ s

theorem sellStep_works (slots : List ItemStack) (containerLen : ℕ) (now : ℚ) (p : SpawnerProgress)
    (s : BehaviorState) : Works s (s.sellStep slots containerLen now p) := by
  rw [sellStep]
  split
  · split
    · exact works_close now none s
    · exact .still rfl rfl
  · exact works_act rfl _ s

theorem finishStage_works (now : ℚ) (p : SpawnerProgress) (s : BehaviorState) :
    Works s (s.finishStage now p) := by
  rw [finishStage]
  split
  · exact .still rfl rfl
  · exact works_close now none s

theorem cleanSlots_works (slots : List ItemStack) (containerLen : ℕ) (now : ℚ) (p : SpawnerProgress)
    (s : BehaviorState) : Works s (s.cleanSlots slots containerLen now p) := by
  rw [cleanSlots]
  extract_lets targets matching p'
  split
  · exact .still rfl rfl
  · split
    · exact finishStage_works now p' s
    · split
      · exact works_throwAll now _ _ s
      · exact sellStep_works slots containerLen now p' s

theorem advanceCleanSpawner_works (bot : Client) (now : ℚ) (p : SpawnerProgress)
    (s : BehaviorState) : Works s (s.advanceCleanSpawner bot now p) := by
  unfold advanceCleanSpawner
  split
  · exact .still rfl rfl
  · split
    · split <;> exact .still rfl rfl
    · split
      · exact works_close now none s
      · split
        · exact .still rfl rfl
        · extract_lets containerLen
          split
          · exact .still rfl rfl
          · split
            · exact cleanSpawnerLegacy_works _ _ now p s
            · exact cleanSlots_works _ _ now p s

theorem guards_closeOpenMenu (bot : Client) (now : ℚ) (s : BehaviorState) :
    (s.closeOpenMenu bot now).guards = s.guards := by
  rw [closeOpenMenu]
  split <;> rfl

theorem guards_advanceSellMultipliers (bot : Client) (now : ℚ) (progress : MultiplierProgress)
    (s : BehaviorState) : (s.advanceSellMultipliers bot now progress).guards = s.guards := by
  rw [advanceSellMultipliers]
  split
  · rfl
  · extract_lets t
    have ht : t.guards = s.guards := by
      simp only [t]
      split <;> rfl
    clear_value t
    generalize ((bot.inventory.map (inspectMultipliers progress.menuId)).getD (none, false)) = read
    obtain ⟨entries, ownsMenu⟩ := read
    rw [← ht, ← guards_closeOpenMenu bot now t]
    cases entries with
    | some entries => rfl
    | none =>
        dsimp only
        split
        · cases ownsMenu with
          | true => rfl
          | false => exact (guards_closeOpenMenu bot now t).symm
        · exact (guards_closeOpenMenu bot now t).symm

theorem advanceActiveTask_works (bot : Client) (now : ℚ) (s : BehaviorState) :
    Works s (s.advanceActiveTask bot now) := by
  rw [advanceActiveTask]
  split
  · exact advanceCleanSpawner_works bot now _ s
  · exact .still (moves_advanceSellMultipliers bot now _ s)
      (guards_advanceSellMultipliers bot now _ s)
  · exact .still rfl rfl

theorem startTask_works (bot : Client) (now : ℚ) (s : BehaviorState) :
    Works s (s.startTask bot now) := by
  unfold startTask
  split
  · exact .still rfl rfl
  · split
    · exact .still rfl rfl
    · dsimp only
      split
      · exact .still rfl rfl
      · rename_i queue _ _ _ pos _
        have hact := @works_act now (.blockInteract pos) rfl (SpawnerProgress.begin now)
          { s with taskQueue := queue }
        exact ⟨hact.moves, hact.guards⟩

/-- A tick in which no foreground task runs. -/
theorem tickForeground_rests (h : (s.tickForeground bot now).2 = false) :
    (s.tickForeground bot now).1 = s := by
  rw [tickForeground] at h ⊢
  split
  · rfl
  · rename_i hpending
    rw [if_neg hpending] at h
    extract_lets advanced at h
    extract_lets
    split at h
    · cases h
    · rename_i hstart
      rw [if_neg hstart]
      have hnone : s.activeTask = none := by simpa using h
      simp only [advanced, advanceActiveTask, hnone]

/-! ### Sales -/

/-- What a sale that is under way does in a step. -/
def Sells (s s' : BehaviorState) : Prop :=
  ∃ done, s'.moves = s.moves ++ done ∧
    ∀ e ∈ done, (∃ menuId slot, e.2 = .shiftClick menuId slot) ∧
      s'.activeTask = none ∧ s'.autosellPhase ≠ .idle

theorem Sells.still (h : t.moves = s.moves) : Sells s t := ⟨[], by rw [h, List.append_nil], by simp⟩

theorem advanceAutosellClick_sells (bot : Client) (now : ℚ) (htask : s.activeTask = none) :
    Sells s (s.advanceAutosellClick bot now) := by
  unfold advanceAutosellClick
  split
  · split
    · exact .still rfl
    · split
      · exact .still rfl
      · split
        · exact .still rfl
        · split
          · exact .still rfl
          · split
            · exact .still rfl
            · rename_i slot _ _
              refine ⟨[(now, .shiftClick _ slot)], moves_act now (.shiftClick _ slot) s, fun e he => ?_⟩
              rw [List.mem_singleton.mp he]
              refine ⟨⟨_, slot, rfl⟩, htask, ?_⟩
              dsimp only
              split <;> simp
  · exact .still rfl

theorem awaitMenu_sells (bot : Client) (now since : ℚ) (startedEmpty : Bool)
    (contentReceived : Option (ℤ × ℕ)) (htask : s.activeTask = none) :
    Sells s (s.awaitMenu bot now since startedEmpty contentReceived) := by
  unfold awaitMenu
  split
  · rename_i id menu hready
    exact @advanceAutosellClick_sells
      { s with autosellPhase := .selling id bot.menuSession menu.playerStart menu.playerEnd } bot now htask
  · split
    · dsimp only
      split <;> exact .still (moves_closeSellMenu bot now s)
    · exact .still rfl

theorem tickAutosell_sells (bot : Client) (now : ℚ) (htask : s.activeTask = none)
    (hsale : s.autosellPhase ≠ .idle) : Sells s (s.tickAutosell bot now) := by
  unfold tickAutosell
  split
  · split
    · exact .still rfl
    · exact .still (moves_closeSellMenu bot now s)
  · split
    · contradiction
    · exact awaitMenu_sells bot now _ _ _ htask
    · exact advanceAutosellClick_sells bot now htask
    · split
      · exact .still rfl
      · dsimp only
        split
        · exact .still (moves_closeSellMenu bot now s)
        · exact .still rfl

theorem recoverOrphanedAutosellMenu_sells (bot : Client) (now : ℚ) (s : BehaviorState) :
    Sells s (s.recoverOrphanedAutosellMenu bot now).1 := by
  rw [recoverOrphanedAutosellMenu]
  split
  · exact .still rfl
  · rename_i hguard
    have htask : s.activeTask = none := by
      simp only [Bool.or_eq_true, not_or] at hguard
      simpa using hguard.1.1.2
    split
    · exact .still rfl
    · split
      · exact tickAutosell_sells bot now (s := { s with
          autosellPhase := .waitingForMenu now false none, nextAutosellAt := now + s.interval })
          htask (by simp)
      · exact .still ((moves_act now .close s).trans (List.append_nil _))

theorem recoverOrphanedAutosellMenu_rests (h : (s.recoverOrphanedAutosellMenu bot now).2 = false) :
    (s.recoverOrphanedAutosellMenu bot now).1 = s := by
  rw [recoverOrphanedAutosellMenu] at h ⊢
  split
  · rfl
  · rename_i hguard
    rw [if_neg hguard] at h
    split
    · rfl
    · rename_i hopen
      rw [if_neg hopen] at h
      split at h <;> cases h

/-- A new command, or none. -/
theorem requestSale_fits (bot : Tick) (now : ℚ) (s : BehaviorState) :
    ∃ done, (s.requestSale bot.sale now).moves = s.moves ++ done ∧
      ∀ e ∈ done, (s.requestSale bot.sale now).Fits now (.tick bot) e.2 := by
  rw [requestSale]
  split
  · exact ⟨[], (List.append_nil _).symm, by simp⟩
  · rename_i hfree
    simp only [Bool.or_eq_true, not_or, Bool.not_eq_true] at hfree
    split
    · exact ⟨[], (List.append_nil _).symm, by simp⟩
    · dsimp only
      split
      · exact ⟨[], (List.append_nil _).symm, by simp⟩
      · split
        · exact ⟨[], (List.append_nil _).symm, by simp⟩
        · refine ⟨[(now, .chat _)], moves_act now (.chat _) _, fun e he => ?_⟩
          rw [List.mem_singleton.mp he]
          exact ⟨hfree.1, ⟨_, rfl⟩, bot, rfl,
            (manualMenuPending_congr (s := s) rfl bot.sale now).trans hfree.2⟩

/-! ### Events -/

theorem tickManualChat_exclusive (bot : Client) (sent : Bool) (now : ℚ) (hs : s.Exclusive) :
    (s.tickManualChat bot sent now).1.Exclusive := by
  rw [tickManualChat]
  split
  · exact hs
  · simp only
    split
    · exact hs
    · split
      · exact hs
      · split
        · rename_i task _ _ _
          cases task <;> exact .of_idle rfl
        · exact .of_idle rfl

theorem requestSale_exclusive (bot : Client) (now : ℚ) (hs : s.Exclusive) :
    (s.requestSale bot now).Exclusive := by
  rw [requestSale]
  split
  · exact hs
  · rename_i hfree
    have htask : s.activeTask = none := by
      simp only [foregroundBusy, Bool.or_eq_true, not_or] at hfree
      simpa using hfree.1.1
    split
    · exact hs
    · dsimp only
      split
      · exact hs
      · split
        · exact hs
        · exact .of_none htask

/-- Acts that fit the state that is left. -/
def Acts (now : ℚ) (event : Event) (s s' : BehaviorState) : Prop :=
  ∃ done, s'.moves = s.moves ++ done ∧ ∀ e ∈ done, s'.Fits now event e.2

theorem Acts.still {event : Event} (h : t.moves = s.moves) : Acts now event s t :=
  ⟨[], by rw [h, List.append_nil], by simp⟩

theorem Sells.acts {event : Event} (h : Sells s t) : Acts now event s t := by
  obtain ⟨done, hdone, hfits⟩ := h
  refine ⟨done, hdone, fun e he => ?_⟩
  obtain ⟨⟨menuId, slot, haction⟩, hrest⟩ := hfits e he
  rw [haction]
  exact hrest

theorem Works.acts {bot : Tick} (h : Works s t) (hfree : s.manualMenuPending bot.foreground now = false)
    (ht : t.Exclusive) : Acts now (.tick bot) s t := by
  obtain ⟨⟨done, hdone, hfits⟩, hguards⟩ := h
  refine ⟨done, hdone, fun e he => ?_⟩
  obtain ⟨hmove, hclean⟩ := hfits e he
  have hidle : t.autosellPhase = .idle := by
    obtain ⟨p, hp⟩ := hclean
    exact ht (by rw [hp]; rfl)
  have hpending := (manualMenuPending_congr hguards bot.foreground now).trans hfree
  obtain ⟨time, action⟩ := e
  cases action with
  | throwAll | pickupLeft | blockInteract => exact ⟨hidle, hclean, bot, rfl, hpending⟩
  | _ => cases hmove

/-- The foreground in a tick. -/
theorem tickForeground_acts (bot : Tick) (now : ℚ) (hs : s.Exclusive) :
    Acts now (.tick bot) s (s.tickForeground bot.foreground now).1 := by
  have hexclusive := (tickForeground_calm bot.foreground now s).exclusive hs
  rw [tickForeground] at hexclusive ⊢
  split
  · exact .still rfl
  · rename_i hpending
    rw [Bool.not_eq_true] at hpending
    simp only [hpending, Bool.false_eq_true, if_false] at hexclusive
    extract_lets advanced
    have hadvanced : Works s advanced := advanceActiveTask_works bot.foreground now s
    split
    · rename_i hstart
      have hstarted := startTask_works bot.foreground now advanced
      rw [if_pos hstart] at hexclusive
      refine Works.acts (s := s) ?_ hpending hexclusive
      have hnone : advanced.activeTask = none := by
        simp only [Bool.and_eq_true] at hstart
        simpa using hstart.1.1
      obtain ⟨⟨done, hdone, hfits⟩, hguards⟩ := hadvanced
      have hnil : done = [] := by
        refine List.eq_nil_iff_forall_not_mem.mpr fun e he => ?_
        obtain ⟨-, p, hp⟩ := hfits e he
        cases hnone.symm.trans hp
      rw [hnil, List.append_nil] at hdone
      exact ⟨hdone ▸ hstarted.moves, hstarted.guards.trans hguards⟩
    · rename_i hstart
      rw [if_neg hstart] at hexclusive
      exact hadvanced.acts hpending hexclusive

/-- Without a sale a tick does nothing, or it asks for one. -/
theorem tickAutosell_idle (bot : Client) (now : ℚ) (hidle : s.autosellPhase = .idle) :
    (s.tickAutosell bot now).moves = s.moves ∨ s.tickAutosell bot now = s.requestSale bot now := by
  unfold tickAutosell
  split
  · left
    dsimp only
    split
    · rfl
    · exact moves_closeSellMenu bot now s
  · right
    simp only [hidle]

theorem tickAutosell_acts (bot : Tick) (now : ℚ) (hs : s.Exclusive) :
    Acts now (.tick bot) s (s.tickAutosell bot.sale now) := by
  by_cases hidle : s.autosellPhase = .idle
  · rcases tickAutosell_idle bot.sale now hidle with hstill | hrequest
    · exact .still hstill
    · rw [hrequest]
      exact requestSale_fits bot now s
  · refine (tickAutosell_sells bot.sale now ?_ hidle).acts
    exact Option.not_isSome_iff_eq_none.mp fun hsome => hidle (hs hsome)

theorem tickAutosell_exclusive (bot : Client) (now : ℚ) (hs : s.Exclusive) :
    (s.tickAutosell bot now).Exclusive := by
  rcases tickAutosell_cases bot now s with hcalm | ⟨-, hrequest⟩
  · exact hcalm.exclusive hs
  · rw [hrequest]
    exact requestSale_exclusive bot now hs

/-- The automation in a tick: one thing at a time. -/
theorem automate_acts (bot : Tick) (now : ℚ) (hs : s.Exclusive) :
    Acts now (.tick bot) s (s.automate bot now) ∧ (s.automate bot now).Exclusive := by
  have hsells := recoverOrphanedAutosellMenu_sells bot.orphan now s
  have hrecovered := (recoverOrphanedAutosellMenu_calm bot.orphan now s).exclusive hs
  rw [automate]
  dsimp only
  split
  · exact ⟨hsells.acts, hrecovered⟩
  · rename_i hnot
    rw [recoverOrphanedAutosellMenu_rests (by simpa using hnot)]
    split
    · exact ⟨tickForeground_acts bot now hs, (tickForeground_calm bot.foreground now s).exclusive hs⟩
    · rename_i hrests
      rw [tickForeground_rests (by simpa using hrests)]
      exact ⟨tickAutosell_acts bot now hs, tickAutosell_exclusive bot.sale now hs⟩

theorem onTick_acts (bot : Tick) (now : ℚ) (hs : s.Exclusive) :
    Acts now (.tick bot) s (s.onTick bot now) ∧ (s.onTick bot now).Exclusive := by
  have hclosed := (((recoverLoadedWorld_calm bot.recovery now s).trans
    (interruptForPause_calm bot.pause now _)).trans
      (closeCancelledSellMenu_calm bot.manual now _)).exclusive hs
  have hmoves : (((s.recoverLoadedWorld bot.recovery now).interruptForPause bot.pause
      now).closeCancelledSellMenu bot.manual now).moves = s.moves := by simp
  rw [onTick]
  dsimp only
  generalize closeCancelledSellMenu bot.manual now _ = closed at hclosed hmoves ⊢
  have hmanual := tickManualChat_exclusive bot.manual bot.sent now hclosed
  have hstill : (closed.tickManualChat bot.manual bot.sent now).1.moves = s.moves := by
    rw [moves_tickManualChat, hmoves]
  split
  · obtain ⟨⟨done, hdone, hfits⟩, hexclusive⟩ := automate_acts bot now hmanual
    exact ⟨⟨done, by rw [hdone, hstill], hfits⟩, hexclusive⟩
  · exact ⟨.still hstill, hmanual⟩

theorem onControlEvent_acts (bot multipliers : Client) (sent : Bool) (now : ℚ) (hs : s.Exclusive) :
    Acts now (.controlEvent bot multipliers sent) s (s.onControlEvent bot multipliers sent now) ∧
      (s.onControlEvent bot multipliers sent now).Exclusive := by
  have hmanual := tickManualChat_exclusive bot sent now
    ((closeCancelledSellMenu_calm bot now s).exclusive hs)
  rw [onControlEvent]
  split
  · rename_i progress htask
    exact ⟨.still (by simp), (advanceSellMultipliers_calm multipliers now progress
      (by rw [htask]; rfl)).exclusive hmanual⟩
  · exact ⟨.still (by simp), hmanual⟩

theorem moves_onMenuOpen (id : ℤ) (title : List Char) (now : ℚ) (s : BehaviorState) :
    (s.onMenuOpen id title now).moves = s.moves := by
  have hscreen : s.screenReplaced.moves = s.moves := by
    rw [screenReplaced]
    split <;> rfl
  rw [← hscreen, onMenuOpen]
  split
  · rfl
  · split
    · rfl
    · split <;> rfl

theorem moves_onContainerContent (bot : Client) (containerId : ℤ) (items : ℕ) (now : ℚ)
    (s : BehaviorState) : (s.onContainerContent bot containerId items now).moves = s.moves := by
  rw [onContainerContent]
  split
  · rfl
  · have hslot : (s.onMultiplierSlot containerId now).moves = s.moves := by
      unfold onMultiplierSlot
      split
      · split <;> rfl
      · rfl
    rw [← hslot]
    dsimp only
    split <;> rfl

theorem moves_onChat (bot : Client) (message : List Char) (now : ℚ) (s : BehaviorState) :
    (s.onChat bot message now).moves = s.moves := by
  rw [onChat]
  split
  · dsimp only
    split
    · exact moves_closeSellMenu bot now s
    · rfl
  · rfl

theorem apply_acts (now : ℚ) (event : Event) (hs : s.Exclusive) :
    Acts now event s (s.apply now event) ∧ (s.apply now event).Exclusive := by
  cases event with
  | tick bot => exact onTick_acts bot now hs
  | controlEvent bot multipliers sent => exact onControlEvent_acts bot multipliers sent now hs
  | login bot => exact ⟨.still (moves_onLogin bot now s), (onLogin_calm bot now s).exclusive hs⟩
  | respawn bot => exact ⟨.still (moves_onLogin bot now s), (onRespawn_calm bot now s).exclusive hs⟩
  | spawn bot => exact ⟨.still (moves_onSpawn bot now s), (onSpawn_calm bot now s).exclusive hs⟩
  | positionSync bot =>
      exact ⟨.still (moves_onPositionSync bot now s), (onPositionSync_calm bot now s).exclusive hs⟩
  | menuOpen id title =>
      exact ⟨.still (moves_onMenuOpen id title now s), (onMenuOpen_calm id title now s).exclusive hs⟩
  | containerContent bot id items =>
      exact ⟨.still (moves_onContainerContent bot id items now s),
        (onContainerContent_calm bot id items now s).exclusive hs⟩
  | multiplierSlot id =>
      refine ⟨.still ?_, (onMultiplierSlot_calm id now s).exclusive hs⟩
      simp only [BehaviorState.apply, onMultiplierSlot]
      split
      · split <;> rfl
      · rfl
  | chat bot message =>
      exact ⟨.still (moves_onChat bot message now s), (onChat_calm bot message now s).exclusive hs⟩
  | updateConfig config => exact ⟨.still rfl, hs⟩
  | pauseAutosell afterMs resumeMs => exact ⟨.still rfl, hs⟩
  | enqueueChat text =>
      rw [BehaviorState.apply, enqueueChat]
      split <;> exact ⟨.still rfl, hs⟩
  | enqueueSellMultipliers => exact ⟨.still rfl, hs⟩
  | enqueueCleanSpawner =>
      refine ⟨.still ?_, (enqueueCleanSpawner_calm s).exclusive hs⟩
      simp only [BehaviorState.apply, enqueueCleanSpawner]
      split
      · rfl
      · split <;> rfl

/-- The events that move the bot to another place. -/
def Transits (now : ℚ) (s : BehaviorState) : Event → Prop
  | .login _ | .respawn _ | .spawn _ => True
  | .positionSync bot => ∃ t, s.settlePosition bot now = some t ∧ t.spawned
  | _ => False

theorem apply_transits {event : Event} (h : s.Transits now event) :
    (s.apply now event).activeTask = none ∧ (s.apply now event).autosellPhase = .idle := by
  cases event with
  | login | respawn | spawn => exact ⟨rfl, rfl⟩
  | positionSync bot =>
      obtain ⟨t, hsettle, hspawned⟩ := h
      simp only [BehaviorState.apply, onPositionSync, hsettle, hspawned]
      exact ⟨rfl, rfl⟩
  | _ => cases h

end BehaviorState

end AfkClient.RustBehaviors
