import AfkClient.Model.RustBehaviors

/-! # Calm steps of a Java bot

All of the automation but manual commands and requests of a sale leaves the budget of commands and
their queue alone, sends nothing, and keeps a foreground task and a sale apart. -/

namespace AfkClient.RustBehaviors

def Action.isCommand : Action → Bool
  | .chat _ | .manual .. => true
  | _ => false

namespace BehaviorState

/-- While a foreground task runs, nothing is being sold. -/
def Exclusive (s : BehaviorState) : Prop := s.activeTask.isSome → s.autosellPhase = .idle

structure Calm (s s' : BehaviorState) : Prop where
  budget : s'.commandBudget = s.commandBudget
  queue : s'.manualChatQueue = s.manualChatQueue
  outbox : ∃ done, s'.outbox = s.outbox ++ done ∧ ∀ e ∈ done, e.2.isCommand = false
  exclusive : s.Exclusive → s'.Exclusive

variable {s t u : BehaviorState} {bot : Client} {now : ℚ}

theorem Calm.trans (h : Calm s t) (h' : Calm t u) : Calm s u := by
  obtain ⟨done, hdone, hcalm⟩ := h.outbox
  obtain ⟨done', hdone', hcalm'⟩ := h'.outbox
  refine ⟨h'.budget.trans h.budget, h'.queue.trans h.queue, ⟨done ++ done', ?_, ?_⟩,
    h'.exclusive ∘ h.exclusive⟩
  · rw [hdone', hdone, List.append_assoc]
  · intro e he
    rcases List.mem_append.mp he with he | he
    · exact hcalm e he
    · exact hcalm' e he

/-- A step that does nothing at the client and keeps the interface to itself. -/
theorem Calm.same (hbudget : t.commandBudget = s.commandBudget)
    (hqueue : t.manualChatQueue = s.manualChatQueue) (hout : t.outbox = s.outbox)
    (hexclusive : s.Exclusive → t.Exclusive) : Calm s t :=
  ⟨hbudget, hqueue, ⟨[], by rw [hout, List.append_nil], by simp⟩, hexclusive⟩

theorem Calm.refl (s : BehaviorState) : Calm s s := .same rfl rfl rfl id

theorem Exclusive.of_idle (h : t.autosellPhase = .idle) : t.Exclusive := fun _ => h

theorem Exclusive.of_none (h : t.activeTask = none) : t.Exclusive := fun hsome => by
  simp [h] at hsome

/-- A task that already runs may move on. -/
theorem Exclusive.of_busy (hbusy : s.activeTask.isSome)
    (hphase : t.autosellPhase = s.autosellPhase) (hs : s.Exclusive) : t.Exclusive :=
  fun _ => hphase.trans (hs hbusy)

theorem calm_acts {actions : List (ℚ × Action)} (h : ∀ e ∈ actions, e.2.isCommand = false) :
    Calm s { s with outbox := s.outbox ++ actions } :=
  ⟨rfl, rfl, ⟨actions, rfl, h⟩, id⟩

theorem calm_act {action : Action} (h : action.isCommand = false) : Calm s (s.act now action) :=
  calm_acts (by simpa using h)

/-! ### Menus -/

theorem closeOpenMenu_calm (bot : Client) (now : ℚ) (s : BehaviorState) :
    Calm s (s.closeOpenMenu bot now) := by
  rw [closeOpenMenu]
  split
  · exact calm_act rfl
  · exact Calm.refl s

theorem closeOpenMenu_phase (bot : Client) (now : ℚ) (s : BehaviorState) :
    (s.closeOpenMenu bot now).autosellPhase = s.autosellPhase := by
  rw [closeOpenMenu]
  split <;> rfl

theorem closeOpenMenu_task (bot : Client) (now : ℚ) (s : BehaviorState) :
    (s.closeOpenMenu bot now).activeTask = s.activeTask := by
  rw [closeOpenMenu]
  split <;> rfl

theorem closeSellMenu_calm (bot : Client) (now : ℚ) (s : BehaviorState) :
    Calm s (s.closeSellMenu bot now) := by
  rw [closeSellMenu]
  split
  · exact closeOpenMenu_calm bot now s
  · exact Calm.refl s

theorem closeCancelledSellMenu_calm (bot : Client) (now : ℚ) (s : BehaviorState) :
    Calm s (s.closeCancelledSellMenu bot now) := by
  rw [closeCancelledSellMenu]
  split
  · exact closeSellMenu_calm bot now s
  · exact Calm.refl s

/-! ### Transitions -/

theorem resetInteractions_calm (s : BehaviorState) : Calm s s.resetInteractions :=
  .same rfl rfl rfl fun _ => .of_idle rfl

theorem interruptForTransition_calm (bot : Client) (now : ℚ) (s : BehaviorState) :
    Calm s (s.interruptForTransition bot now) := by
  rw [interruptForTransition]
  refine Calm.trans ?_ (resetInteractions_calm _)
  split
  · exact closeOpenMenu_calm bot now s
  · exact closeSellMenu_calm bot now s

theorem onLogin_calm (bot : Client) (now : ℚ) (s : BehaviorState) : Calm s (s.onLogin bot now) :=
  (interruptForTransition_calm bot now s).trans (.same rfl rfl rfl id)

theorem onRespawn_calm (bot : Client) (now : ℚ) (s : BehaviorState) :
    Calm s (s.onRespawn bot now) :=
  (onLogin_calm bot now s).trans (.same rfl rfl rfl id)

theorem onSpawn_calm (bot : Client) (now : ℚ) (s : BehaviorState) : Calm s (s.onSpawn bot now) :=
  (interruptForTransition_calm bot now s).trans (.same rfl rfl rfl id)

theorem settlePosition_calm (hsettle : s.settlePosition bot now = some t) : Calm s t := by
  unfold settlePosition at hsettle
  split at hsettle
  · split at hsettle
    · cases hsettle
    · obtain rfl := Option.some.inj hsettle
      exact .same rfl rfl rfl id
  · obtain rfl := Option.some.inj hsettle
    exact Calm.refl s

theorem onPositionSync_calm (bot : Client) (now : ℚ) (s : BehaviorState) :
    Calm s (s.onPositionSync bot now) := by
  rw [onPositionSync]
  cases hsettle : s.settlePosition bot now with
  | none => exact Calm.refl s
  | some t =>
      refine (settlePosition_calm hsettle).trans ?_
      dsimp only
      split
      · exact Calm.refl t
      · exact (interruptForTransition_calm bot now t).trans (.same rfl rfl rfl id)

theorem recoverLoadedWorld_calm (bot : Client) (now : ℚ) (s : BehaviorState) :
    Calm s (s.recoverLoadedWorld bot now) := by
  rw [recoverLoadedWorld]
  split
  · exact onSpawn_calm bot now s
  · exact Calm.refl s

theorem interruptForPause_calm (bot : Client) (now : ℚ) (s : BehaviorState) :
    Calm s (s.interruptForPause bot now) := by
  rw [interruptForPause]
  split
  · exact interruptForTransition_calm bot now s
  · exact Calm.refl s

/-! ### Foreground tasks -/

theorem throwAll_calm (now : ℚ) (slots : List ℕ) (s : BehaviorState) :
    Calm s (s.throwAll now slots) :=
  calm_acts (by simp [Action.isCommand])

/-- A task may end, or go on after an act. -/
theorem Calm.task (hact : Calm s t) (task : Option ActiveTask) (hbusy : s.activeTask.isSome)
    (hphase : t.autosellPhase = s.autosellPhase) : Calm s { t with activeTask := task } :=
  ⟨hact.budget, hact.queue, hact.outbox, .of_busy hbusy hphase⟩

theorem cleanSpawnerLegacy_calm (slots : List ItemStack) (containerLen : ℕ) (now : ℚ)
    (p : SpawnerProgress) (hbusy : s.activeTask.isSome) :
    Calm s (s.cleanSpawnerLegacy slots containerLen now p) := by
  rw [cleanSpawnerLegacy]
  split
  · exact (calm_act rfl).task none hbusy rfl
  · split
    · exact (Calm.refl s).task _ hbusy rfl
    · dsimp only
      split
      · exact (calm_act rfl).task none hbusy rfl
      · exact (throwAll_calm now _ s).task _ hbusy rfl

theorem finishStage_calm (now : ℚ) (p : SpawnerProgress) (hbusy : s.activeTask.isSome) :
    Calm s (s.finishStage now p) := by
  rw [finishStage]
  split
  · exact (Calm.refl s).task _ hbusy rfl
  · exact (calm_act rfl).task none hbusy rfl

theorem sellStep_calm (slots : List ItemStack) (containerLen : ℕ) (now : ℚ)
    (p : SpawnerProgress) (hbusy : s.activeTask.isSome) :
    Calm s (s.sellStep slots containerLen now p) := by
  rw [sellStep]
  split
  · split
    · exact (calm_act rfl).task none hbusy rfl
    · exact (Calm.refl s).task _ hbusy rfl
  · exact (calm_act rfl).task _ hbusy rfl

theorem cleanSlots_calm (slots : List ItemStack) (containerLen : ℕ) (now : ℚ)
    (p : SpawnerProgress) (hbusy : s.activeTask.isSome) :
    Calm s (s.cleanSlots slots containerLen now p) := by
  rw [cleanSlots]
  extract_lets targets matching p'
  split
  · exact (Calm.refl s).task _ hbusy rfl
  · split
    · exact finishStage_calm now p' hbusy
    · split
      · exact (throwAll_calm now _ s).task _ hbusy rfl
      · exact sellStep_calm slots containerLen now p' hbusy

theorem advanceCleanSpawner_calm (bot : Client) (now : ℚ) (p : SpawnerProgress)
    (hbusy : s.activeTask.isSome) : Calm s (s.advanceCleanSpawner bot now p) := by
  unfold advanceCleanSpawner
  split
  · exact Calm.refl s
  · split
    · split
      · exact (Calm.refl s).task none hbusy rfl
      · exact Calm.refl s
    · split
      · exact (calm_act rfl).task none hbusy rfl
      · split
        · exact Calm.refl s
        · dsimp only
          split
          · exact Calm.refl s
          · split
            · exact cleanSpawnerLegacy_calm _ _ now p hbusy
            · exact cleanSlots_calm _ _ now p hbusy

theorem advanceSellMultipliers_calm (bot : Client) (now : ℚ) (progress : MultiplierProgress)
    (hbusy : s.activeTask.isSome) : Calm s (s.advanceSellMultipliers bot now progress) := by
  rw [advanceSellMultipliers]
  split
  · exact Calm.refl s
  · extract_lets checked
    have hchecked : Calm s checked ∧ checked.activeTask.isSome := by
      dsimp only [checked]
      split
      · exact ⟨(Calm.refl s).task _ hbusy rfl, rfl⟩
      · exact ⟨Calm.refl s, hbusy⟩
    refine hchecked.1.trans ?_
    have hbusy := hchecked.2
    clear_value checked
    generalize ((bot.inventory.map (inspectMultipliers progress.menuId)).getD (none, false)) = read
    obtain ⟨entries, ownsMenu⟩ := read
    cases entries with
    | some entries =>
        have hclosed := (closeOpenMenu_calm bot now checked).trans
          (@calm_act _ now (.sellMultipliers entries) rfl)
        have htask := hclosed.task none hbusy (closeOpenMenu_phase bot now checked)
        exact htask.trans (.same rfl rfl rfl id)
    | none =>
        dsimp only
        split
        · cases ownsMenu with
          | true =>
              exact (closeOpenMenu_calm bot now checked).task none hbusy
                (closeOpenMenu_phase bot now checked)
          | false => exact (Calm.refl checked).task none hbusy rfl
        · exact Calm.refl checked

theorem advanceActiveTask_calm (bot : Client) (now : ℚ) (s : BehaviorState) :
    Calm s (s.advanceActiveTask bot now) := by
  rw [advanceActiveTask]
  cases htask : s.activeTask with
  | none => exact Calm.refl s
  | some task =>
      cases task with
      | cleanSpawner p => exact advanceCleanSpawner_calm bot now p (by rw [htask]; rfl)
      | sellMultipliers p => exact advanceSellMultipliers_calm bot now p (by rw [htask]; rfl)

theorem startTask_calm (bot : Client) (now : ℚ) (hidle : s.autosellPhase = .idle) :
    Calm s (s.startTask bot now) := by
  unfold startTask
  split
  · exact Calm.refl s
  · split
    · exact Calm.refl s
    · dsimp only
      split
      · exact .same rfl rfl rfl id
      · exact ⟨rfl, rfl, (@calm_act s now (.blockInteract _) rfl).outbox,
          fun _ => .of_idle hidle⟩

theorem isIdle_iff (phase : AutoSellPhase) : phase.isIdle = true ↔ phase = .idle := by
  cases phase <;> simp [AutoSellPhase.isIdle]

theorem tickForeground_calm (bot : Client) (now : ℚ) (s : BehaviorState) :
    Calm s (s.tickForeground bot now).1 := by
  rw [tickForeground]
  split
  · exact Calm.refl s
  · extract_lets advanced
    have hadvanced : Calm s advanced := advanceActiveTask_calm bot now s
    split
    · rename_i hstart
      simp only [Bool.and_eq_true, isIdle_iff] at hstart
      exact hadvanced.trans (startTask_calm bot now hstart.1.2)
    · exact hadvanced

/-! ### Selling -/

theorem Calm.idle (hact : Calm s t) : Calm s { t with autosellPhase := .idle } :=
  ⟨hact.budget, hact.queue, hact.outbox, fun _ => .of_idle rfl⟩

/-- While something is being sold no task runs, and the sale may go on. -/
theorem Calm.sale (hact : Calm s t) (phase : AutoSellPhase) (hsale : s.autosellPhase ≠ .idle)
    (htask : t.activeTask = s.activeTask) : Calm s { t with autosellPhase := phase } :=
  ⟨hact.budget, hact.queue, hact.outbox, fun hs hsome => absurd (hs (htask ▸ hsome)) hsale⟩

theorem advanceAutosellClick_calm (bot : Client) (now : ℚ) (s : BehaviorState) :
    Calm s (s.advanceAutosellClick bot now) := by
  unfold advanceAutosellClick
  split
  · rename_i menuId session nextSlot endSlot hphase
    have hsale : s.autosellPhase ≠ .idle := by simp [hphase]
    split
    · exact (Calm.refl s).idle
    · split
      · exact Calm.refl s
      · split
        · exact (Calm.refl s).idle
        · split
          · exact (Calm.refl s).sale _ hsale rfl
          · split
            · exact Calm.refl s
            · exact ((calm_act rfl).sale _ hsale rfl).trans (.same rfl rfl rfl id)
  · exact Calm.refl s

theorem awaitMenu_calm (bot : Client) (now since : ℚ) (startedEmpty : Bool)
    (contentReceived : Option (ℤ × ℕ)) (hsale : s.autosellPhase ≠ .idle) :
    Calm s (s.awaitMenu bot now since startedEmpty contentReceived) := by
  unfold awaitMenu
  split
  · exact ((Calm.refl s).sale _ hsale rfl).trans (advanceAutosellClick_calm bot now _)
  · split
    · dsimp only
      split <;> exact (closeSellMenu_calm bot now s).idle.trans (.same rfl rfl rfl id)
    · exact Calm.refl s

/-- The sale that a tick goes on with. -/
theorem tickAutosell_calm (bot : Client) (now : ℚ) (hsale : s.autosellPhase ≠ .idle) :
    Calm s (s.tickAutosell bot now) := by
  unfold tickAutosell
  split
  · split
    · exact (Calm.refl s).idle
    · exact (closeSellMenu_calm bot now s).idle
  · split
    · contradiction
    · exact awaitMenu_calm bot now _ _ _ hsale
    · exact advanceAutosellClick_calm bot now s
    · split
      · exact Calm.refl s
      · dsimp only
        split
        · exact (closeSellMenu_calm bot now s).idle.trans (.same rfl rfl rfl id)
        · exact (Calm.refl s).idle.trans (.same rfl rfl rfl id)

/-- A tick asks for a new sale, or it is calm. -/
theorem tickAutosell_cases (bot : Client) (now : ℚ) (s : BehaviorState) :
    Calm s (s.tickAutosell bot now) ∨
      s.autosellPhase = .idle ∧ s.tickAutosell bot now = s.requestSale bot now := by
  by_cases hidle : s.autosellPhase = .idle
  · unfold tickAutosell
    split
    · left
      split
      · exact (Calm.refl s).idle
      · exact (closeSellMenu_calm bot now s).idle
    · simp [hidle]
  · exact .inl (tickAutosell_calm bot now hidle)

theorem recoverOrphanedAutosellMenu_calm (bot : Client) (now : ℚ) (s : BehaviorState) :
    Calm s (s.recoverOrphanedAutosellMenu bot now).1 := by
  rw [recoverOrphanedAutosellMenu]
  split
  · exact Calm.refl s
  · rename_i hguard
    have htask : s.activeTask = none := by
      simp only [Bool.or_eq_true, not_or] at hguard
      simpa using hguard.1.1.2
    split
    · exact Calm.refl s
    · split
      · refine Calm.trans (t := { s with
          autosellPhase := .waitingForMenu now false none, nextAutosellAt := now + s.interval })
          (.same rfl rfl rfl fun _ => .of_none htask) ?_
        exact tickAutosell_calm bot now nofun
      · exact (calm_act rfl).trans (.same rfl rfl rfl id)

/-! ### Other events -/

theorem onMultiplierSlot_calm (id : ℤ) (now : ℚ) (s : BehaviorState) :
    Calm s (s.onMultiplierSlot id now) := by
  unfold onMultiplierSlot
  split
  · rename_i progress htask
    split
    · exact (Calm.refl s).task _ (by rw [htask]; rfl) rfl
    · exact Calm.refl s
  · exact Calm.refl s

theorem screenReplaced_calm (s : BehaviorState) : Calm s s.screenReplaced := by
  unfold screenReplaced
  split
  · exact (Calm.refl s).idle.trans (.same rfl rfl rfl id)
  · exact (Calm.refl s).idle.trans (.same rfl rfl rfl id)
  · exact .same rfl rfl rfl id

theorem onMenuOpen_calm (id : ℤ) (title : List Char) (now : ℚ) (s : BehaviorState) :
    Calm s (s.onMenuOpen id title now) := by
  refine (screenReplaced_calm s).trans ?_
  unfold onMenuOpen
  dsimp only
  split
  · rename_i progress htask
    exact (Calm.refl _).task _ (by rw [htask]; rfl) rfl
  · split
    · exact .same rfl rfl rfl fun h => h
    · split
      · exact .same rfl rfl rfl fun h => h
      · exact Calm.refl _

theorem onContainerContent_calm (bot : Client) (containerId : ℤ) (items : ℕ) (now : ℚ)
    (s : BehaviorState) : Calm s (s.onContainerContent bot containerId items now) := by
  rw [onContainerContent]
  split
  · exact Calm.refl s
  · refine (onMultiplierSlot_calm containerId now s).trans ?_
    dsimp only
    split
    · rename_i hphase
      exact (Calm.refl _).sale _ (by simp [hphase]) rfl
    · exact Calm.refl _

theorem onChat_calm (bot : Client) (message : List Char) (now : ℚ) (s : BehaviorState) :
    Calm s (s.onChat bot message now) := by
  rw [onChat]
  split
  · dsimp only
    split
    · exact (closeSellMenu_calm bot now s).idle.trans (.same rfl rfl rfl id)
    · exact (Calm.refl s).idle.trans (.same rfl rfl rfl id)
  · exact Calm.refl s

theorem enqueueCleanSpawner_calm (s : BehaviorState) : Calm s s.enqueueCleanSpawner := by
  rw [enqueueCleanSpawner]
  split_ifs
  · exact Calm.refl s
  · exact .same rfl rfl rfl id

end BehaviorState

end AfkClient.RustBehaviors
