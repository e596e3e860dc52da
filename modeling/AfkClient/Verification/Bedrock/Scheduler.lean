import AfkClient.Model.BedrockBehaviors
import Mathlib.Tactic.Linarith
import Mathlib.Tactic.NormNum

/-! The guards of the scheduler of a Bedrock bot, against the history of the calls. -/

namespace AfkClient.BedrockBehaviors

open BehaviorState (interval sellCommand)

variable {ι : Type}

/-! ### The history -/

def Event.arrives : Event ι → Bool
  | .markSpawned => true
  | .markTeleported => true
  | _ => false

def Event.teleports : Event ι → Bool
  | .markTeleported => true
  | _ => false

def Event.busy : Event ι → Bool
  | .onChat _ message => isInventoryBusyMessage message
  | _ => false

/-- The manual task that is queued. -/
def Event.task : Event ι → Option ForegroundTask
  | .enqueueChat text => if trimmed text = "" then none else some (.command (trimmed text))
  | .enqueueSellMultipliers => some .sellMultipliers
  | _ => none

def Output.task : Output → Option ForegroundTask
  | .send text => some (.command text)
  | .sellMultipliers => some .sellMultipliers
  | _ => none

def Output.sale : Output → Option String
  | .sell command => some command
  | _ => none

def tasks (outputs : List Output) : List ForegroundTask := outputs.filterMap Output.task

def sales (outputs : List Output) : List String := outputs.filterMap Output.sale

/-- A chat command was sent. -/
def sends (outputs : List Output) : Prop := ∃ text, .command text ∈ tasks outputs

/-- The manual tasks that were queued, and those that were run, the oldest first. -/
def queuedTasks : List (Entry ι) → List ForegroundTask
  | [] => []
  | entry :: before => queuedTasks before ++ entry.event.task.toList

def ranTasks : List (Entry ι) → List ForegroundTask
  | [] => []
  | entry :: before => ranTasks before ++ tasks entry.outputs

def spawnedAt : List (Entry ι) → Bool
  | [] => false
  | entry :: before =>
      match entry.event with
      | .markSpawned => true
      | .markTeleported => true
      | .markJoining => false
      | _ => spawnedAt before

def settings (start : Start ι) : List (Entry ι) → BehaviorConfig
  | [] => start.state.cfg
  | entry :: before =>
      match entry.event with
      | .updateConfig cfg => cfg
      | _ => settings start before

/-- The last announced restart pause. -/
def restartPause (start : Start ι) : List (Entry ι) → ℚ × ℚ
  | [] => (start.now + start.afterMs, start.now + start.resumeMs)
  | entry :: before =>
      match entry.event with
      | .pauseAutosell afterMs resumeMs => (entry.time + afterMs, entry.time + resumeMs)
      | _ => restartPause start before

/-- A spawn, a teleport or a change of the settings of the automatic sale. -/
def resets (cfg : BehaviorConfig) : Event ι → Bool
  | .markSpawned => true
  | .markTeleported => true
  | .updateConfig cfg' => BehaviorState.autosellChanged cfg cfg'
  | _ => false

/-- The times of the automatic sales since then. -/
def salesSince (start : Start ι) : List (Entry ι) → List ℚ
  | [] => []
  | entry :: before =>
      if resets (settings start before) entry.event then []
      else (sales entry.outputs).map (fun _ => entry.time) ++ salesSince start before

/-- No teleport is marked within 150 ms after the message that the inventory is busy. -/
def Unshortened : List (Entry ι) → Prop
  | [] => True
  | entry :: before =>
      (entry.event.teleports = true →
        ∀ old ∈ before, old.event.busy = true → old.time + 150 ≤ entry.time) ∧
      Unshortened before

/-! ### What a tick can do -/

/-- The fields that decide what is run. -/
structure Plan where
  cfg : BehaviorConfig
  spawned : Bool
  nextAutosellAt : WithTop ℚ
  restartPauseStart : ℚ
  restartPauseEnd : ℚ
  automationReadyAt : WithTop ℚ
  manualAutosellPauseUntil : ℚ
  manualQueue : List ForegroundTask
  queue : List ForegroundTask

def BehaviorState.plan (s : BehaviorState ι) : Plan where
  cfg := s.cfg
  spawned := s.spawned
  nextAutosellAt := s.nextAutosellAt
  restartPauseStart := s.restartPauseStart
  restartPauseEnd := s.restartPauseEnd
  automationReadyAt := s.automationReadyAt
  manualAutosellPauseUntil := s.manualAutosellPauseUntil
  manualQueue := s.manualQueue
  queue := s.queue

def Plan.postpone (deadline : ℚ) (p : Plan) : Plan :=
  { p with
    automationReadyAt := max p.automationReadyAt deadline
    nextAutosellAt := max p.nextAutosellAt deadline }

/-- Nothing forbids an automatic sale. -/
structure MaySell (ops : InventoryOps ι) (now : ℚ) (inventory : ι) (p : Plan) : Prop where
  spawned : p.spawned = true
  enabled : p.cfg.autosellEnabled = some true
  manual : p.manualQueue = []
  reading : ops.readingMultipliers inventory = false
  restart : ¬(p.restartPauseStart ≤ now ∧ now < p.restartPauseEnd)
  synchronized : ops.synchronized inventory = true
  busy : ops.busy (ops.tick now inventory) = false
  blocked : ops.blocked (ops.tick now inventory) = false
  pause : p.manualAutosellPauseUntil ≤ now
  ready : p.automationReadyAt ≤ now
  due : p.nextAutosellAt ≤ now

/-- The plan after a tick, the manual task it ran and the automatic sale. -/
inductive Acts (ops : InventoryOps ι) (now : ℚ) (inventory : ι) (p : Plan) :
    Plan → List ForegroundTask → List String → Prop
  | idle : Acts ops now inventory p p [] []
  | command {text : String} {rest : List ForegroundTask} (guard : ℚ) (hspawned : p.spawned = true)
      (hqueue : p.manualQueue = .command text :: rest) :
      Acts ops now inventory p
        ({ p with manualQueue := rest, manualAutosellPauseUntil := now + 5000 }.postpone
          (now + guard)) [.command text] []
  | sellMultipliers {rest : List ForegroundTask} (hspawned : p.spawned = true)
      (hqueue : p.manualQueue = .sellMultipliers :: rest) :
      Acts ops now inventory p
        ({ p with manualQueue := rest }.postpone (now + CHAT_COMMAND_GUARD_MS)) [.sellMultipliers] []
  | automatic {rest : List ForegroundTask} (hqueue : p.queue = .cleanSpawner :: rest) :
      Acts ops now inventory p { p with queue := rest } [] []
  | sell (h : MaySell ops now inventory p) :
      Acts ops now inventory p { p with nextAutosellAt := (now + interval p.cfg : ℚ) } []
        [sellCommand p.cfg]

namespace BehaviorState

theorem plan_scheduleTeleportCrouchCheck (now : ℚ) (s : BehaviorState ι) :
    (s.scheduleTeleportCrouchCheck now).plan = s.plan := by
  rw [scheduleTeleportCrouchCheck]
  split <;> rfl

theorem plan_checkCrouch (now : ℚ) (s : BehaviorState ι) : (s.checkCrouch now).plan = s.plan := by
  rw [checkCrouch]
  split <;> rfl

theorem plan_postponeAutomation (deadline : ℚ) (s : BehaviorState ι) :
    (s.postponeAutomation deadline).plan = s.plan.postpone deadline := rfl

/-- The steps of a tick before the tasks. -/
theorem runCrouchChecks_spec (now : ℚ) (s : BehaviorState ι) :
    (s.runCrouchChecks now).plan = s.plan ∧ (s.runCrouchChecks now).inventory = s.inventory := by
  rw [runCrouchChecks]
  split
  · refine ⟨plan_checkCrouch now _, ?_⟩
    rw [checkCrouch]
    split <;> rfl
  · exact ⟨rfl, rfl⟩

theorem tickHeartbeat_spec (now : ℚ) (s : BehaviorState ι) :
    (s.tickHeartbeat now).1.plan = s.plan ∧ (s.tickHeartbeat now).1.inventory = s.inventory ∧
      tasks (s.tickHeartbeat now).2 = [] ∧ sales (s.tickHeartbeat now).2 = [] := by
  rw [tickHeartbeat]
  split <;> exact ⟨rfl, rfl, rfl, rfl⟩

theorem tickCrouch_spec (now : ℚ) (s : BehaviorState ι) :
    (s.tickCrouch now).1.plan = s.plan ∧ (s.tickCrouch now).1.inventory = s.inventory ∧
      tasks (s.tickCrouch now).2 = [] ∧ sales (s.tickCrouch now).2 = [] := by
  rw [tickCrouch]
  split <;> exact ⟨rfl, rfl, rfl, rfl⟩

theorem runForeground_command (ops : InventoryOps ι) (text : String) (now : ℚ)
    (s : BehaviorState ι) : ∃ guard : ℚ, (s.runForeground ops (.command text) now true).1.plan =
      { s.plan with manualAutosellPauseUntil := now + 5000 }.postpone (now + guard) := by
  refine ⟨if isTeleportCommand text then TELEPORT_COMMAND_GUARD_MS else CHAT_COMMAND_GUARD_MS, ?_⟩
  rw [runForeground, plan_postponeAutomation]
  congr 1
  split
  · rw [plan_scheduleTeleportCrouchCheck]
    rfl
  · rfl

theorem tickAutomation_acts (ops : InventoryOps ι) (now : ℚ) {s : BehaviorState ι}
    (hqueue : ∀ task ∈ s.queue, task = .cleanSpawner) (hmanual : s.spawned = true → s.manualQueue = []) :
    Acts ops now s.inventory s.plan (s.tickAutomation ops now).1.plan
      (tasks (s.tickAutomation ops now).2) (sales (s.tickAutomation ops now).2) := by
  unfold tickAutomation
  split
  · exact .idle
  · rename_i hreading
    split
    · exact .idle
    · rename_i hguards
      simp only [not_or, Bool.not_eq_false, not_lt] at hguards
      obtain ⟨hspawned, hready, hpause⟩ := hguards
      cases htasks : s.queue with
      | cons task rest =>
          obtain rfl := hqueue task (htasks ▸ List.mem_cons_self)
          by_cases hrestart : s.restartPauseStart ≤ now ∧ now < s.restartPauseEnd
          · simp only [runForeground, Bool.true_eq_false, false_and, and_false, hrestart, and_self,
              if_true, if_false]
            exact .automatic htasks
          · simp only [runForeground, Bool.true_eq_false, false_and, and_false, hrestart, if_false]
            exact .automatic htasks
      | nil =>
          simp only [true_and]
          by_cases hrestart : s.restartPauseStart ≤ now ∧ now < s.restartPauseEnd
          · simp only [hrestart, and_self, not_true, false_and, and_false, if_true, if_false]
            exact .idle
          · simp only [hrestart, not_false_eq_true, true_and, if_false]
            split
            · rename_i hsell
              rw [tickSell]
              split
              · exact .idle
              · rename_i hfree
                rw [Bool.or_eq_true, not_or, Bool.not_eq_true, Bool.not_eq_true] at hfree
                split
                · rename_i hdue
                  exact .sell ⟨hspawned, hsell.1, hmanual hspawned, Bool.eq_false_iff.mpr hreading,
                    hrestart, hsell.2, hfree.1, hfree.2, hpause, hready, hdue⟩
                · exact .idle
            · exact .idle

theorem tickTasks_acts (ops : InventoryOps ι) (now : ℚ) {s : BehaviorState ι}
    (hqueue : ∀ task ∈ s.queue, task = .cleanSpawner)
    (hmanual : ∀ task ∈ s.manualQueue, task ≠ .cleanSpawner) :
    Acts ops now s.inventory s.plan (s.tickTasks ops now).1.plan
      (tasks (s.tickTasks ops now).2) (sales (s.tickTasks ops now).2) := by
  unfold tickTasks
  split
  · rename_i task rest hspawned htasks
    cases task with
    | command text =>
        obtain ⟨guard, hplan⟩ :=
          runForeground_command ops text now { s with manualQueue := rest }
        rw [hplan]
        exact .command guard hspawned htasks
    | sellMultipliers => exact .sellMultipliers hspawned htasks
    | cleanSpawner => exact absurd rfl (hmanual _ (htasks ▸ List.mem_cons_self))
  · rename_i hnone
    refine tickAutomation_acts ops now hqueue fun hspawned => ?_
    cases htasks : s.manualQueue with
    | nil => rfl
    | cons task rest => exact (hnone task rest hspawned htasks).elim

theorem onTick_acts (ops : InventoryOps ι) (now : ℚ) {s : BehaviorState ι}
    (hqueue : ∀ task ∈ s.queue, task = .cleanSpawner)
    (hmanual : ∀ task ∈ s.manualQueue, task ≠ .cleanSpawner) :
    Acts ops now s.inventory s.plan (s.onTick ops now).1.plan
      (tasks (s.onTick ops now).2) (sales (s.onTick ops now).2) := by
  obtain ⟨hplan₁, hinventory₁⟩ := s.runCrouchChecks_spec now
  obtain ⟨hplan₂, hinventory₂, htasks₂, hsales₂⟩ := (s.runCrouchChecks now).tickHeartbeat_spec now
  obtain ⟨hplan₃, hinventory₃, htasks₃, hsales₃⟩ :=
    ((s.runCrouchChecks now).tickHeartbeat now).1.tickCrouch_spec now
  unfold onTick
  simp only
  generalize (s.runCrouchChecks now).tickHeartbeat now = heartbeat at *
  generalize heartbeat.1.tickCrouch now = crouch at *
  have hplan : crouch.1.plan = s.plan := by rw [hplan₃, hplan₂, hplan₁]
  have hinventory : crouch.1.inventory = s.inventory := by
    rw [hinventory₃, hinventory₂, hinventory₁]
  have hqueues : crouch.1.queue = s.queue ∧ crouch.1.manualQueue = s.manualQueue :=
    ⟨congrArg Plan.queue hplan, congrArg Plan.manualQueue hplan⟩
  have hacts := tickTasks_acts ops now (s := crouch.1) (hqueues.1 ▸ hqueue) (hqueues.2 ▸ hmanual)
  rw [hplan, hinventory] at hacts
  have hinput : ∀ spawned : Bool, tasks (if spawned then [Output.tickInput] else []) = [] ∧
      sales (if spawned then [Output.tickInput] else []) = [] := fun spawned => by
    cases spawned <;> exact ⟨rfl, rfl⟩
  simp only [tasks, sales, List.filterMap_append] at *
  rw [htasks₂, htasks₃, hsales₂, hsales₃, (hinput _).1, (hinput _).2]
  exact hacts

end BehaviorState

/-! ### Runs -/

/-- The plan is what the history says. -/
structure Agrees (start : Start ι) (p : Plan) (history : List (Entry ι)) : Prop where
  cfg : p.cfg = settings start history
  spawned : p.spawned = spawnedAt history
  restart : (p.restartPauseStart, p.restartPauseEnd) = restartPause start history
  manual : ranTasks history ++ p.manualQueue = queuedTasks history
  queue : ∀ task ∈ p.queue, task = .cleanSpawner

theorem queuedTasks_manual (history : List (Entry ι)) :
    ∀ task ∈ queuedTasks history, task ≠ .cleanSpawner := by
  induction history with
  | nil => exact fun task htask => absurd htask List.not_mem_nil
  | cons entry before ih =>
      intro task htask
      rcases List.mem_append.mp htask with htask | htask
      · exact ih task htask
      · cases hevent : entry.event with
        | enqueueChat text =>
            rw [hevent, Event.task] at htask
            split at htask
            · cases htask
            · obtain rfl := List.mem_singleton.mp htask
              nofun
        | enqueueSellMultipliers =>
            rw [hevent] at htask
            obtain rfl := List.mem_singleton.mp htask
            nofun
        | _ =>
            rw [hevent] at htask
            cases htask

theorem Agrees.acts {start : Start ι} {s : BehaviorState ι} {history : List (Entry ι)}
    (h : Agrees start s.plan history) (ops : InventoryOps ι) (now : ℚ) :
    Acts ops now s.inventory s.plan (s.onTick ops now).1.plan
      (tasks (s.onTick ops now).2) (sales (s.onTick ops now).2) :=
  s.onTick_acts ops now h.queue fun task htask =>
    queuedTasks_manual history task (h.manual ▸ List.mem_append_right _ htask)

/-- An event that is not a tick runs no task and sells nothing. -/
theorem quiet (ops : InventoryOps ι) (now : ℚ) (s : BehaviorState ι) {event : Event ι}
    (h : event ≠ .onTick) :
    tasks (s.step ops now event).2 = [] ∧ sales (s.step ops now event).2 = [] := by
  cases event with
  | onTick => exact absurd rfl h
  | updateConfig cfg =>
      rw [BehaviorState.step, BehaviorState.updateConfig]
      split <;> exact ⟨rfl, rfl⟩
  | _ => exact ⟨rfl, rfl⟩

theorem plan_updateConfig (ops : InventoryOps ι) (now : ℚ) (cfg : BehaviorConfig)
    (s : BehaviorState ι) : (s.updateConfig ops now cfg).1.plan =
      { s.plan with
        cfg := cfg
        nextAutosellAt :=
          if BehaviorState.autosellChanged s.cfg cfg && cfg.autosellEnabled == some true then
            max now s.automationReadyAt
          else s.nextAutosellAt } := by
  unfold BehaviorState.updateConfig
  simp only
  split <;> rfl

theorem plan_onChat (ops : InventoryOps ι) (now : ℚ) (sender : Option String) (message : String)
    (s : BehaviorState ι) : (s.onChat ops now sender message).plan =
      if isInventoryBusyMessage message then s.plan.postpone (now + INVENTORY_BUSY_DELAY_MS)
      else s.plan := by
  unfold BehaviorState.onChat
  split
  · split
    · exact congrArg (Plan.postpone _) (BehaviorState.plan_scheduleTeleportCrouchCheck now _)
    · exact BehaviorState.plan_scheduleTeleportCrouchCheck now _
  · split <;> rfl

theorem plan_markTeleported (ops : InventoryOps ι) (now : ℚ) (s : BehaviorState ι) :
    (s.markTeleported ops now).plan =
      { s.plan with
        spawned := true
        automationReadyAt := (now + TELEPORT_STABILIZE_MS : ℚ)
        nextAutosellAt := (now + TELEPORT_STABILIZE_MS : ℚ) } := by
  have hplan := BehaviorState.plan_scheduleTeleportCrouchCheck now s
  rw [BehaviorState.markTeleported]
  rw [← hplan]
  rfl

theorem plan_onSneakStatus (now : ℚ) (sneaking : Bool) (s : BehaviorState ι) :
    (s.onSneakStatus now sneaking).plan = s.plan := by
  unfold BehaviorState.onSneakStatus
  simp only
  split <;> rfl

theorem Agrees.step {start : Start ι} {s : BehaviorState ι} {history : List (Entry ι)}
    (h : Agrees start s.plan history) (ops : InventoryOps ι) (now : ℚ) (event : Event ι) :
    Agrees start (s.step ops now event).1.plan
      (⟨now, event, (s.step ops now event).2⟩ :: history) := by
  obtain ⟨hcfg, hspawned, hrestart, hmanual, hqueue⟩ := h
  have hsame : ranTasks history ++ [] ++ s.plan.manualQueue = queuedTasks history ++ [] := by
    rw [List.append_nil, List.append_nil, hmanual]
  cases event with
  | onTick =>
      have hacts := Agrees.acts ⟨hcfg, hspawned, hrestart, hmanual, hqueue⟩ ops now
      rw [BehaviorState.step]
      generalize (s.onTick ops now).1.plan = p at hacts ⊢
      generalize (s.onTick ops now).2 = outputs at hacts ⊢
      have hran : ∀ queue, tasks outputs ++ queue = s.plan.manualQueue →
          ranTasks (⟨now, .onTick, outputs⟩ :: history) ++ queue =
            queuedTasks (⟨now, .onTick, outputs⟩ :: history) := by
        intro queue hqueue
        rw [ranTasks, List.append_assoc, hqueue, hmanual, queuedTasks]
        exact (List.append_nil _).symm
      generalize htasks : tasks outputs = ran at hacts
      generalize sales outputs = sold at hacts
      cases hacts with
      | idle => exact ⟨hcfg, hspawned, hrestart, hran _ (htasks ▸ rfl), hqueue⟩
      | command guard _ hnext => exact ⟨hcfg, hspawned, hrestart, hran _ (htasks ▸ hnext.symm), hqueue⟩
      | sellMultipliers _ hnext =>
          exact ⟨hcfg, hspawned, hrestart, hran _ (htasks ▸ hnext.symm), hqueue⟩
      | automatic hnext =>
          exact ⟨hcfg, hspawned, hrestart, hran _ (htasks ▸ rfl),
            fun task htask => hqueue task (hnext ▸ List.mem_cons_of_mem _ htask)⟩
      | sell hmay => exact ⟨hcfg, hspawned, hrestart, hran _ (htasks ▸ rfl), hqueue⟩
  | updateConfig cfg =>
      have hquiet := (@quiet _ ops now s (.updateConfig cfg) nofun).1
      rw [BehaviorState.step] at hquiet ⊢
      rw [plan_updateConfig]
      exact ⟨rfl, hspawned, hrestart, by rw [ranTasks, hquiet]; exact hsame, hqueue⟩
  | onChat sender message =>
      rw [BehaviorState.step, plan_onChat]
      split <;> exact ⟨hcfg, hspawned, hrestart, hsame, hqueue⟩
  | markTeleported =>
      rw [BehaviorState.step, plan_markTeleported]
      exact ⟨hcfg, rfl, hrestart, hsame, hqueue⟩
  | onSneakStatus sneaking =>
      rw [BehaviorState.step, plan_onSneakStatus]
      exact ⟨hcfg, hspawned, hrestart, hsame, hqueue⟩
  | checkCrouch =>
      rw [BehaviorState.step, BehaviorState.plan_checkCrouch]
      exact ⟨hcfg, hspawned, hrestart, hsame, hqueue⟩
  | enqueueChat text =>
      rw [BehaviorState.step, BehaviorState.enqueueChat]
      by_cases htext : trimmed text = ""
      · rw [if_pos htext]
        refine ⟨hcfg, hspawned, hrestart, ?_, hqueue⟩
        rw [queuedTasks, Event.task, if_pos htext]
        exact hsame
      · rw [if_neg htext]
        refine ⟨hcfg, hspawned, hrestart, ?_, hqueue⟩
        rw [queuedTasks, Event.task, if_neg htext, ← hmanual, List.append_assoc, ranTasks]
        exact congrArg (· ++ _) (List.append_nil _)
  | enqueueSellMultipliers =>
      refine ⟨hcfg, hspawned, hrestart, ?_, hqueue⟩
      rw [queuedTasks, ← hmanual, List.append_assoc, ranTasks]
      exact congrArg (· ++ _) (List.append_nil _)
  | enqueueCleanSpawner =>
      refine ⟨hcfg, hspawned, hrestart, hsame, fun task htask => ?_⟩
      rcases List.mem_append.mp htask with htask | htask
      · exact hqueue task htask
      · exact List.mem_singleton.mp htask
  | pauseAutosell afterMs resumeMs => exact ⟨hcfg, hspawned, rfl, hsame, hqueue⟩
  | markSpawned => exact ⟨hcfg, rfl, hrestart, hsame, hqueue⟩
  | markJoining => exact ⟨hcfg, rfl, hrestart, hsame, hqueue⟩
  | inventory change => exact ⟨hcfg, hspawned, hrestart, hsame, hqueue⟩

theorem run_agrees (ops : InventoryOps ι) (start : Start ι) (events : List (ℚ × Event ι)) :
    Agrees start (run ops start events).1.plan (run ops start events).2 := by
  induction events with
  | nil => exact ⟨rfl, rfl, rfl, rfl, fun task htask => absurd htask List.not_mem_nil⟩
  | cons event before ih => exact ih.step ops event.1 event.2

/-! ### Guards -/

/-- The deadlines guard what the history asks for. -/
structure Guarded (start : Start ι) (p : Plan) (history : List (Entry ι)) : Prop where
  commands : ∀ entry ∈ history, sends entry.outputs → entry.time + 5000 ≤ p.manualAutosellPauseUntil
  arrivals : ∀ entry ∈ history, entry.event.arrives = true →
    ((entry.time + 100 : ℚ) : WithTop ℚ) ≤ p.automationReadyAt
  spacing : ∀ time ∈ salesSince start history,
    ((time + interval p.cfg : ℚ) : WithTop ℚ) ≤ p.nextAutosellAt
  busy : Unshortened history → ∀ entry ∈ history, entry.event.busy = true →
    ((entry.time + 250 : ℚ) : WithTop ℚ) ≤ p.automationReadyAt

theorem quiet_sends {outputs : List Output} (h : tasks outputs = []) : ¬sends outputs := by
  rintro ⟨text, htext⟩
  rw [h] at htext
  cases htext

/-- Deadlines that do not fall keep guarding. -/
theorem Guarded.later {start : Start ι} {p p' : Plan} {history : List (Entry ι)}
    (h : Guarded start p history) {entry : Entry ι}
    (hpause : ∀ old ∈ history, sends old.outputs → old.time + 5000 ≤ p'.manualAutosellPauseUntil)
    (hready : p.automationReadyAt ≤ p'.automationReadyAt)
    (hsends : sends entry.outputs → entry.time + 5000 ≤ p'.manualAutosellPauseUntil)
    (harrives : entry.event.arrives = false)
    (hbusy : entry.event.busy = true → ((entry.time + 250 : ℚ) : WithTop ℚ) ≤ p'.automationReadyAt)
    (hsales : resets (settings start history) entry.event = true ∨
      interval p'.cfg = interval p.cfg ∧ p.nextAutosellAt ≤ p'.nextAutosellAt ∧
        (sales entry.outputs ≠ [] →
          ((entry.time + interval p.cfg : ℚ) : WithTop ℚ) ≤ p'.nextAutosellAt)) :
    Guarded start p' (entry :: history) := by
  constructor
  · intro old hold hold'
    rcases List.mem_cons.mp hold with rfl | hold
    · exact hsends hold'
    · exact hpause old hold hold'
  · intro old hold hold'
    rcases List.mem_cons.mp hold with rfl | hold
    · rw [harrives] at hold'
      cases hold'
    · exact (h.arrivals old hold hold').trans hready
  · intro time htime
    rw [salesSince] at htime
    rcases hsales with hresets | ⟨hinterval, hnext, hsold⟩
    · rw [if_pos hresets] at htime
      cases htime
    · rw [hinterval]
      split at htime
      · cases htime
      · rcases List.mem_append.mp htime with htime | htime
        · obtain ⟨command, hcommand, rfl⟩ := List.mem_map.mp htime
          exact hsold (List.ne_nil_of_mem hcommand)
        · exact (h.spacing time htime).trans hnext
  · intro hunshortened old hold hold'
    rcases List.mem_cons.mp hold with rfl | hold
    · exact hbusy hold'
    · exact (h.busy hunshortened.2 old hold hold').trans hready

/-- An arrival starts the deadlines anew. -/
theorem Guarded.arrive {start : Start ι} {p : Plan} {history : List (Entry ι)}
    (h : Guarded start p history) (entry : Entry ι)
    (hclock : ∀ old ∈ history, old.time ≤ entry.time) (houtputs : entry.outputs = [])
    {delay : ℚ} (hdelay : 100 ≤ delay) (hbusy : entry.event.busy = false)
    (hresets : ∀ cfg, resets cfg entry.event = true)
    (hlater : Unshortened (entry :: history) → ∀ old ∈ history, old.event.busy = true →
      old.time + 250 ≤ entry.time + delay) :
    Guarded start { p with
      spawned := true
      automationReadyAt := (entry.time + delay : ℚ)
      nextAutosellAt := (entry.time + delay : ℚ) } (entry :: history) := by
  constructor
  · intro old hold hold'
    rcases List.mem_cons.mp hold with rfl | hold
    · exact absurd hold' (quiet_sends (by rw [houtputs]; rfl))
    · exact h.commands old hold hold'
  · intro old hold hold'
    refine WithTop.coe_le_coe.mpr ?_
    rcases List.mem_cons.mp hold with rfl | hold
    · linarith
    · have hold := hclock old hold
      linarith
  · intro time htime
    rw [salesSince, if_pos (hresets _)] at htime
    cases htime
  · intro hunshortened old hold hold'
    rcases List.mem_cons.mp hold with rfl | hold
    · rw [hbusy] at hold'
      cases hold'
    · exact WithTop.coe_le_coe.mpr (hlater hunshortened old hold hold')

theorem Guarded.tick {start : Start ι} {p p' : Plan} {history : List (Entry ι)}
    (h : Guarded start p history) {ops : InventoryOps ι} {now : ℚ} {inventory : ι}
    {outputs : List Output} (hclock : ∀ old ∈ history, old.time ≤ now)
    (hacts : Acts ops now inventory p p' (tasks outputs) (sales outputs)) :
    Guarded start p' (⟨now, .onTick, outputs⟩ :: history) := by
  generalize htasks : tasks outputs = ran at hacts
  generalize hsales : sales outputs = sold at hacts
  cases hacts with
  | idle =>
      exact h.later h.commands le_rfl (fun hsends => absurd hsends (quiet_sends htasks)) rfl nofun
        (.inr ⟨rfl, le_rfl, fun hsold => absurd hsales hsold⟩)
  | command guard _ hnext =>
      exact h.later (fun old hold _ => add_le_add_left (hclock old hold) 5000) (le_max_left _ _)
        (fun _ => le_rfl) rfl nofun
        (.inr ⟨rfl, le_max_left _ _, fun hsold => absurd hsales hsold⟩)
  | sellMultipliers _ hnext =>
      refine h.later h.commands (le_max_left _ _) ?_ rfl nofun
        (.inr ⟨rfl, le_max_left _ _, fun hsold => absurd hsales hsold⟩)
      rintro ⟨text, htext⟩
      rw [htasks] at htext
      cases List.mem_singleton.mp htext
  | automatic hnext =>
      exact h.later h.commands le_rfl (fun hsends => absurd hsends (quiet_sends htasks)) rfl nofun
        (.inr ⟨rfl, le_rfl, fun hsold => absurd hsales hsold⟩)
  | sell hmay =>
      have hinterval : 0 ≤ interval p.cfg :=
        mul_nonneg (le_max_of_le_left (by norm_num)) (by norm_num)
      have hlater : ((now : ℚ) : WithTop ℚ) ≤ (now + interval p.cfg : ℚ) :=
        WithTop.coe_le_coe.mpr (le_add_of_nonneg_right hinterval)
      exact h.later h.commands le_rfl (fun hsends => absurd hsends (quiet_sends htasks)) rfl nofun
        (.inr ⟨rfl, hmay.due.trans hlater, fun _ => le_rfl⟩)

theorem Guarded.step {start : Start ι} {s : BehaviorState ι} {history : List (Entry ι)}
    (hguarded : Guarded start s.plan history) (hagrees : Agrees start s.plan history)
    (ops : InventoryOps ι) {now : ℚ} (event : Event ι) (hclock : ∀ old ∈ history, old.time ≤ now) :
    Guarded start (s.step ops now event).1.plan
      (⟨now, event, (s.step ops now event).2⟩ :: history) := by
  have hsilent : sends [] → now + 5000 ≤ s.plan.manualAutosellPauseUntil :=
    fun hsends => absurd hsends (quiet_sends rfl)
  have hunsold : ∀ p : Plan,
      sales [] ≠ [] → ((now + interval s.plan.cfg : ℚ) : WithTop ℚ) ≤ p.nextAutosellAt :=
    fun _ hsold => absurd rfl hsold
  have hkept : interval s.plan.cfg = interval s.plan.cfg ∧
      s.plan.nextAutosellAt ≤ s.plan.nextAutosellAt ∧
      (sales [] ≠ [] → ((now + interval s.plan.cfg : ℚ) : WithTop ℚ) ≤ s.plan.nextAutosellAt) :=
    ⟨rfl, le_rfl, hunsold s.plan⟩
  cases event with
  | onTick => exact hguarded.tick hclock (hagrees.acts ops now)
  | updateConfig cfg =>
      obtain ⟨htasks, hsales⟩ := @quiet _ ops now s (.updateConfig cfg) nofun
      rw [BehaviorState.step] at htasks hsales ⊢
      rw [plan_updateConfig]
      refine hguarded.later hguarded.commands le_rfl
        (fun hsends => absurd hsends (quiet_sends htasks)) rfl nofun ?_
      cases hchanged : BehaviorState.autosellChanged s.cfg cfg with
      | true =>
          refine .inl ?_
          rw [resets, ← hagrees.cfg]
          exact hchanged
      | false =>
          simp only [BehaviorState.autosellChanged, ne_eq, decide_not, Bool.or_eq_false_iff,
            Bool.not_eq_false', decide_eq_true_eq] at hchanged
          have hinterval : interval cfg = interval s.cfg := by
            rw [interval, interval, hchanged.1.2]
          exact .inr ⟨hinterval, le_rfl, fun hsold => absurd hsales hsold⟩
  | onChat sender message =>
      rw [BehaviorState.step, plan_onChat]
      split
      · exact hguarded.later hguarded.commands (le_max_left _ _) hsilent rfl
          (fun _ => le_max_right _ _) (.inr ⟨rfl, le_max_left _ _, hunsold _⟩)
      · rename_i hbusy
        exact hguarded.later hguarded.commands le_rfl hsilent rfl (fun hbusy' => absurd hbusy' hbusy)
          (.inr hkept)
  | markTeleported =>
      rw [BehaviorState.step, plan_markTeleported]
      refine hguarded.arrive ⟨now, .markTeleported, []⟩ hclock rfl le_rfl rfl (fun _ => rfl)
        fun hunshortened old hold hbusy => ?_
      have hlate := hunshortened.1 rfl old hold hbusy
      rw [TELEPORT_STABILIZE_MS]
      linarith
  | markSpawned =>
      refine hguarded.arrive ⟨now, .markSpawned, []⟩ hclock rfl
        (by decide +kernel : (100 : ℚ) ≤ SPAWN_STABILIZE_MS) rfl (fun _ => rfl) fun _ old hold _ => ?_
      exact add_le_add_left (hclock old hold) 250
  | markJoining =>
      exact hguarded.later hguarded.commands le_top hsilent rfl nofun (.inr hkept)
  | onSneakStatus sneaking =>
      rw [BehaviorState.step, plan_onSneakStatus]
      exact hguarded.later hguarded.commands le_rfl hsilent rfl nofun (.inr hkept)
  | checkCrouch =>
      rw [BehaviorState.step, BehaviorState.plan_checkCrouch]
      exact hguarded.later hguarded.commands le_rfl hsilent rfl nofun (.inr hkept)
  | enqueueChat text =>
      rw [BehaviorState.step, BehaviorState.enqueueChat]
      split
      all_goals exact hguarded.later hguarded.commands le_rfl hsilent rfl nofun (.inr hkept)
  | _ => exact hguarded.later hguarded.commands le_rfl hsilent rfl nofun (.inr hkept)

/-- The clock never goes back; the latest call stands first. -/
def Clock (events : List (ℚ × Event ι)) : Prop := (events.map Prod.fst).Pairwise (· ≥ ·)

theorem run_times (ops : InventoryOps ι) (start : Start ι) (events : List (ℚ × Event ι)) :
    (run ops start events).2.map Entry.time = events.map Prod.fst := by
  induction events with
  | nil => rfl
  | cons event before ih => exact congrArg (event.1 :: ·) ih

theorem Clock.times {now : ℚ} {event : Event ι} {events : List (ℚ × Event ι)}
    (h : Clock ((now, event) :: events)) (ops : InventoryOps ι) (start : Start ι) :
    ∀ old ∈ (run ops start events).2, old.time ≤ now := by
  intro old hold
  have hmem := List.mem_map_of_mem (f := Entry.time) hold
  rw [run_times] at hmem
  exact (List.pairwise_cons.mp h).1 old.time hmem

theorem run_guarded (ops : InventoryOps ι) (start : Start ι) {events : List (ℚ × Event ι)}
    (h : Clock events) : Guarded start (run ops start events).1.plan (run ops start events).2 := by
  induction events with
  | nil => exact ⟨nofun, nofun, nofun, fun _ => nofun⟩
  | cons event before ih =>
      exact (ih (List.pairwise_cons.mp h).2).step (run_agrees ops start before) ops event.2
        (h.times ops start)

/-- What holds when an automatic sale is sent. -/
structure Allowed (ops : InventoryOps ι) (start : Start ι) (now : ℚ) (s : BehaviorState ι)
    (history : List (Entry ι)) : Prop where
  spawned : spawnedAt history = true
  manual : ranTasks history = queuedTasks history
  reading : ops.readingMultipliers s.inventory = false
  restart : ¬((restartPause start history).1 ≤ now ∧ now < (restartPause start history).2)
  synchronized : ops.synchronized s.inventory = true
  busy : ops.busy (ops.tick now s.inventory) = false
  blocked : ops.blocked (ops.tick now s.inventory) = false
  commands : ∀ old ∈ history, sends old.outputs → old.time + 5000 ≤ now
  arrivals : ∀ old ∈ history, old.event.arrives = true → old.time + 100 ≤ now
  spacing : ∀ time ∈ salesSince start history, time + interval (settings start history) ≤ now

/-- A call after any run: manual tasks run in order, one in a tick and while spawned; an automatic
sale is sent only where it is allowed, and 250 ms after the inventory was busy if no teleport was
marked within 150 ms after such a message. -/
theorem step_guards (ops : InventoryOps ι) (start : Start ι) (events : List (ℚ × Event ι)) (now : ℚ)
    (event : Event ι) (hclock : Clock ((now, event) :: events)) :
    let (s, history) := run ops start events
    let outputs := (s.step ops now event).2
    ranTasks history ++ s.manualQueue = queuedTasks history ∧
    (tasks outputs).length ≤ 1 ∧ (tasks outputs ≠ [] → event = .onTick ∧ spawnedAt history = true) ∧
    ∀ command ∈ sales outputs, event = .onTick ∧ Allowed ops start now s history ∧
      (Unshortened history → ∀ old ∈ history, old.event.busy = true → old.time + 250 ≤ now) := by
  have hagrees := run_agrees ops start events
  have hguarded := run_guarded ops start (List.pairwise_cons.mp hclock).2
  generalize run ops start events = state at hagrees hguarded ⊢
  obtain ⟨s, history⟩ := state
  simp only at hagrees hguarded ⊢
  refine ⟨hagrees.manual, ?_⟩
  by_cases hevent : event = .onTick
  · subst hevent
    rw [BehaviorState.step]
    have hacts := hagrees.acts ops now
    generalize tasks (s.onTick ops now).2 = ran at hacts ⊢
    generalize sales (s.onTick ops now).2 = sold at hacts ⊢
    generalize (s.onTick ops now).1.plan = p at hacts
    cases hacts with
    | idle => exact ⟨Nat.zero_le 1, fun hran => absurd rfl hran, nofun⟩
    | command guard hspawned hnext =>
        exact ⟨le_rfl, fun _ => ⟨rfl, hagrees.spawned ▸ hspawned⟩, nofun⟩
    | sellMultipliers hspawned hnext =>
        exact ⟨le_rfl, fun _ => ⟨rfl, hagrees.spawned ▸ hspawned⟩, nofun⟩
    | automatic hnext => exact ⟨Nat.zero_le 1, fun hran => absurd rfl hran, nofun⟩
    | sell hmay =>
        refine ⟨Nat.zero_le 1, fun hran => absurd rfl hran, fun command _ => ⟨rfl, ?_, ?_⟩⟩
        · have hmanual := hagrees.manual
          rw [hmay.manual, List.append_nil] at hmanual
          refine ⟨hagrees.spawned ▸ hmay.spawned, hmanual, hmay.reading, ?_, hmay.synchronized,
            hmay.busy, hmay.blocked, ?_, ?_, ?_⟩
          · rw [← hagrees.restart]
            exact hmay.restart
          · exact fun old hold hsends => (hguarded.commands old hold hsends).trans hmay.pause
          · exact fun old hold harrives =>
              WithTop.coe_le_coe.mp ((hguarded.arrivals old hold harrives).trans hmay.ready)
          · intro time htime
            rw [← hagrees.cfg]
            exact WithTop.coe_le_coe.mp ((hguarded.spacing time htime).trans hmay.due)
        · exact fun hunshortened old hold hbusy =>
            WithTop.coe_le_coe.mp ((hguarded.busy hunshortened old hold hbusy).trans hmay.ready)
  · obtain ⟨htasks, hsales⟩ := quiet ops now s hevent
    rw [htasks, hsales]
    exact ⟨Nat.zero_le 1, fun hran => absurd rfl hran, nofun⟩

/-- An inventory that is always ready. -/
def ready : InventoryOps Unit where
  reset := id
  interrupt _ _ _ := id
  requestMultipliers _ := id
  request _ := id
  tick _ := id
  tickMultipliers _ := id
  busy _ := false
  blocked _ := false
  synchronized _ := true
  readingMultipliers _ := false

def seller : Start Unit := ⟨(), { autosellEnabled := some true }, 0, 0, 0⟩

def busyMessage : String :=
  "Du kannst dies nicht tun, weil dein Inventar gerade gespeichert oder geladen wird."

/-- A teleport 100 ms after the message that the inventory is busy. -/
def teleportedBusy : List (ℚ × Event Unit) :=
  [(1100, .markTeleported), (1000, .onChat none busyMessage), (0, .markSpawned)]

theorem step_guards_shortened : ¬∀ (start : Start Unit) (events : List (ℚ × Event Unit)) (now : ℚ),
    Clock ((now, .onTick) :: events) →
    ∀ command ∈ sales ((run ready start events).1.step ready now .onTick).2,
      ∀ old ∈ (run ready start events).2, old.event.busy = true → old.time + 250 ≤ now := by
  intro h
  have hsold : "/sell" ∈ sales ((run ready seller teleportedBusy).1.step ready 1200 .onTick).2 := by
    decide +kernel
  have hlate := h seller teleportedBusy 1200 (by unfold Clock; decide +kernel) _ hsold
    ⟨1000, .onChat none busyMessage, []⟩ (List.mem_cons_of_mem _ List.mem_cons_self)
    (by decide +kernel)
  revert hlate
  decide +kernel

theorem step_guards_ready :
    let (s, history) := run ready seller [(0, .markSpawned)]
    ∀ command ∈ sales (s.step ready 300 .onTick).2, Allowed ready seller 300 s history :=
  fun command hcommand => ((step_guards ready seller [(0, .markSpawned)] 300 .onTick
    (by unfold Clock; decide +kernel)).2.2.2 command hcommand).2.1

end AfkClient.BedrockBehaviors
