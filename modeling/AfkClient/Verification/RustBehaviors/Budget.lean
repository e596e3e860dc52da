import AfkClient.Library.Run
import AfkClient.Library.TokenBucket
import AfkClient.Verification.RustBehaviors.Calm
import Mathlib.Data.Rat.Floor

/-! # The command budget and the queue of manual commands -/

namespace AfkClient.RustBehaviors

open BehaviorState

/-! ### What is sent -/

def Action.isSent : Action → Bool
  | .chat _ => true
  | .manual _ sent => sent
  | _ => false

/-- When a message was sent, by a command or by a sale. -/
def sendTimes (outbox : List (ℚ × Action)) : List ℚ :=
  (outbox.filter (·.2.isSent)).map Prod.fst

def Action.sentTask : Action → Option ManualTask
  | .manual task true => some task
  | _ => none

def sentTasks (outbox : List (ℚ × Action)) : List ManualTask :=
  outbox.filterMap (·.2.sentTask)

/-- The task that an event queues. -/
def Event.queued : Event → List ManualTask
  | .enqueueChat text => if RustBot.trim text = [] then [] else [.chat (RustBot.trim text)]
  | .enqueueSellMultipliers => [.sellMultipliers]
  | _ => []

theorem sendTimes_append (as bs : List (ℚ × Action)) :
    sendTimes (as ++ bs) = sendTimes as ++ sendTimes bs := by
  rw [sendTimes, List.filter_append, List.map_append]
  rfl

theorem sentTasks_append (as bs : List (ℚ × Action)) :
    sentTasks (as ++ bs) = sentTasks as ++ sentTasks bs :=
  List.filterMap_append

theorem isSent_of_calm {action : Action} (h : action.isCommand = false) :
    action.isSent = false ∧ action.sentTask = none := by
  cases action <;> simp_all [Action.isCommand, Action.isSent, Action.sentTask]

theorem sendTimes_calm {done : List (ℚ × Action)} (h : ∀ e ∈ done, e.2.isCommand = false) :
    sendTimes done = [] := by
  rw [sendTimes, List.map_eq_nil_iff, List.filter_eq_nil_iff]
  intro e he
  simp [(isSent_of_calm (h e he)).1]

theorem sentTasks_calm {done : List (ℚ × Action)} (h : ∀ e ∈ done, e.2.isCommand = false) :
    sentTasks done = [] := by
  rw [sentTasks, List.filterMap_eq_nil_iff]
  exact fun e he => (isSent_of_calm (h e he)).2

/-! ### One event -/

variable {s t u : BehaviorState} {now : ℚ}

/-- The budget before and after some commands of one moment. -/
inductive Spends (now : ℚ) : CommandBudget → List Action → CommandBudget → Prop
  | nil (b : CommandBudget) : Spends now b [] b
  | refill {b b' : CommandBudget} {commands : List Action} :
      Spends now (b.refill now) commands b' → Spends now b commands b'
  | send {b b' : CommandBudget} {action : Action} {commands : List Action} :
      action.isSent = true → b.updatedAt = now → 1 ≤ b.tokens →
      Spends now b.record commands b' → Spends now b (action :: commands) b'
  | fail {b b' : CommandBudget} {action : Action} {commands : List Action} :
      action.isSent = false → Spends now b commands b' → Spends now b (action :: commands) b'

/-- What one event does about commands. -/
structure Does (now : ℚ) (s : BehaviorState) (commands : List Action) (s' : BehaviorState) :
    Prop where
  outbox : ∃ done, s'.outbox = s.outbox ++ done ∧
    done.filter (·.2.isCommand) = commands.map (now, ·)
  budget : Spends now s.commandBudget commands s'.commandBudget
  queue : commands.filterMap Action.sentTask ++ s'.manualChatQueue = s.manualChatQueue
  failed : ∀ task, .manual task false ∈ commands →
    s'.manualChatQueue = s.manualChatQueue ∧ s.manualChatQueue.head? = some task

theorem Spends.trans {b b' b'' : CommandBudget} {commands later : List Action}
    (h : Spends now b commands b') (h' : Spends now b' later b'') :
    Spends now b (commands ++ later) b'' := by
  induction h with
  | nil b => exact h'
  | refill _ ih => exact (ih h').refill
  | send hsent hnow htoken _ ih => exact (ih h').send hsent hnow htoken
  | fail hfailed _ ih => exact (ih h').fail hfailed

theorem Does.of_calm (h : Calm s t) : Does now s [] t := by
  obtain ⟨done, hdone, hcalm⟩ := h.outbox
  refine ⟨⟨done, hdone, ?_⟩, h.budget ▸ .nil _, h.queue, by simp⟩
  rw [List.map_nil, List.filter_eq_nil_iff]
  exact fun e he => by simp [hcalm e he]

/-- Some commands, and then others that are not manual. -/
theorem Does.trans {commands later : List Action} (h : Does now s commands t)
    (h' : Does now t later u) (hauto : ∀ action ∈ later, ∀ task sent, action ≠ .manual task sent) :
    Does now s (commands ++ later) u := by
  have hnone : later.filterMap Action.sentTask = [] := by
    rw [List.filterMap_eq_nil_iff]
    intro action haction
    cases action with
    | manual task sent => exact absurd rfl (hauto _ haction task sent)
    | _ => rfl
  have hqueue : u.manualChatQueue = t.manualChatQueue := by
    rw [← h'.queue, hnone, List.nil_append]
  obtain ⟨done, hdone, hcommands⟩ := h.outbox
  obtain ⟨done', hdone', hlater⟩ := h'.outbox
  refine ⟨⟨done ++ done', by rw [hdone', hdone, List.append_assoc], ?_⟩,
    h.budget.trans h'.budget, ?_, ?_⟩
  · rw [List.filter_append, hcommands, hlater, List.map_append]
  · rw [List.filterMap_append, hnone, List.append_nil, hqueue, h.queue]
  · intro task htask
    rcases List.mem_append.mp htask with htask | htask
    · rw [hqueue]
      exact h.failed task htask
    · exact absurd rfl (hauto _ htask task false)

theorem Does.after_calm {commands : List Action} (h : Calm s t) (h' : Does now t commands u) :
    Does now s commands u := by
  obtain ⟨done, hdone, hcalm⟩ := h.outbox
  obtain ⟨done', hdone', hcommands⟩ := h'.outbox
  refine ⟨⟨done ++ done', by rw [hdone', hdone, List.append_assoc], ?_⟩, h.budget ▸ h'.budget,
    h.queue ▸ h'.queue, h.queue ▸ h'.failed⟩
  rw [List.filter_append, hcommands, List.filter_eq_nil_iff.mpr fun e he => by simp [hcalm e he],
    List.nil_append]

theorem Does.then_calm {commands : List Action} (h : Does now s commands t) (h' : Calm t u) :
    Does now s commands u := by
  have hdoes := h.trans (.of_calm h') (by simp)
  rwa [List.append_nil] at hdoes

theorem ready_snd (b : CommandBudget) : (b.ready now).2 = true ↔ 1 ≤ (b.refill now).tokens := by
  rw [CommandBudget.ready, decide_eq_true_eq]

theorem interruptForCommand_calm (bot : Client) (now : ℚ) (text : List Char) (s : BehaviorState) :
    Calm s (s.interruptForCommand bot now text) := by
  rw [interruptForCommand]
  refine Calm.trans ?_ (resetInteractions_calm _)
  refine Calm.trans ?_ (closeOpenMenu_calm bot now _)
  exact .same rfl rfl rfl id

theorem commandSent_effect (now : ℚ) (task : ManualTask) (s : BehaviorState) :
    (s.commandSent now task).commandBudget = s.commandBudget.record ∧
      (s.commandSent now task).manualChatQueue = s.manualChatQueue ∧
      (s.commandSent now task).outbox = s.outbox := by
  cases task <;> exact ⟨rfl, rfl, rfl⟩

/-- A manual command that a tick tries, whatever becomes of it. -/
theorem attempt_does (bot : Client) {task : ManualTask} {queue : List ManualTask}
    {final : BehaviorState} (sent : Bool) (hqueue : s.manualChatQueue = task :: queue)
    (htoken : 1 ≤ (s.commandBudget.refill now).tokens)
    (hout : final.outbox = ((interruptForCommand bot now task.text
      { s with commandBudget := s.commandBudget.refill now, manualChatQueue := queue }).act now
        (.manual task sent)).outbox)
    (hbudget : final.commandBudget = if sent then (s.commandBudget.refill now).record
      else s.commandBudget.refill now)
    (hfinal : final.manualChatQueue = if sent then queue else task :: queue) :
    Does now s [.manual task sent] final := by
  have hcalm := interruptForCommand_calm bot now task.text
    { s with commandBudget := s.commandBudget.refill now, manualChatQueue := queue }
  obtain ⟨done, hdone, hquiet⟩ := hcalm.outbox
  refine ⟨⟨done ++ [(now, .manual task sent)], ?_, ?_⟩, .refill ?_, ?_, ?_⟩
  · rw [hout, act, hdone, List.append_assoc]
  · rw [List.filter_append, List.filter_eq_nil_iff.mpr fun e he => by simp [hquiet e he]]
    rfl
  · rw [hbudget]
    cases sent with
    | true => exact .send rfl rfl htoken (.nil _)
    | false => exact .fail rfl (.nil _)
  · rw [hfinal, hqueue]
    cases sent <;> rfl
  · intro task' htask'
    cases sent with
    | true => simp at htask'
    | false =>
        obtain rfl : task' = task := by simpa using htask'
        exact ⟨by rw [hfinal, hqueue]; rfl, by rw [hqueue]; rfl⟩

theorem refill_does (s : BehaviorState) :
    Does now s [] { s with commandBudget := s.commandBudget.refill now } :=
  ⟨⟨[], by simp, rfl⟩, .refill (.nil _), rfl, by simp⟩

theorem tickManualChat_does (bot : Client) (sent : Bool) (now : ℚ) (s : BehaviorState) :
    ∃ commands, Does now s commands (s.tickManualChat bot sent now).1 := by
  rw [tickManualChat]
  split
  · exact ⟨[], .of_calm (Calm.refl s)⟩
  · dsimp only
    split
    · exact ⟨[], refill_does s⟩
    · rename_i hready
      have htoken : 1 ≤ (s.commandBudget.refill now).tokens := by
        rw [← ready_snd]
        simpa using hready
      split
      · exact ⟨[], refill_does s⟩
      · rename_i task queue hqueue
        have hcalm := interruptForCommand_calm bot now task.text
          { s with commandBudget := s.commandBudget.refill now, manualChatQueue := queue }
        cases sent with
        | true =>
            refine ⟨[.manual task true], attempt_does bot true hqueue htoken ?_ ?_ ?_⟩
            · exact (commandSent_effect now task _).2.2
            · exact (commandSent_effect now task _).1.trans
                (congrArg CommandBudget.record hcalm.budget)
            · exact (commandSent_effect now task _).2.1.trans hcalm.queue
        | false =>
            exact ⟨[.manual task false], attempt_does bot false hqueue htoken rfl hcalm.budget
              (congrArg (task :: ·) hcalm.queue)⟩

/-- Asking for a sale, or not. -/
theorem requestSale_does (bot : Client) (now : ℚ) (s : BehaviorState) :
    ∃ commands, Does now s commands (s.requestSale bot now) ∧
      ∀ action ∈ commands, ∀ task sent, action ≠ .manual task sent := by
  rw [requestSale]
  split
  · exact ⟨[], .of_calm (Calm.refl s), by simp⟩
  · split
    · exact ⟨[], .of_calm (Calm.refl s), by simp⟩
    · dsimp only
      split
      · exact ⟨[], refill_does s, by simp⟩
      · rename_i hready
        have htoken : 1 ≤ (s.commandBudget.refill now).tokens := by
          rw [← ready_snd]
          simpa using hready
        split
        · exact ⟨[], refill_does s, by simp⟩
        · refine ⟨[.chat _], ⟨⟨_, rfl, rfl⟩, .refill (.send rfl rfl htoken (.nil _)), rfl, ?_⟩, ?_⟩
          · simp
          · simp

/-- The automation of a tick sends no manual command. -/
theorem automate_does (bot : Tick) (now : ℚ) (s : BehaviorState) :
    ∃ commands, Does now s commands (s.automate bot now) ∧
      ∀ action ∈ commands, ∀ task sent, action ≠ .manual task sent := by
  have hrecovered := recoverOrphanedAutosellMenu_calm bot.orphan now s
  rw [automate]
  dsimp only
  split
  · exact ⟨[], .of_calm hrecovered, by simp⟩
  · have hforeground := hrecovered.trans
      (tickForeground_calm bot.foreground now (s.recoverOrphanedAutosellMenu bot.orphan now).1)
    split
    · exact ⟨[], .of_calm hforeground, by simp⟩
    · rcases tickAutosell_cases bot.sale now
          ((s.recoverOrphanedAutosellMenu bot.orphan now).1.tickForeground bot.foreground now).1
        with hcalm | ⟨-, hrequest⟩
      · exact ⟨[], .of_calm (hforeground.trans hcalm), by simp⟩
      · rw [hrequest]
        obtain ⟨commands, hdoes, hauto⟩ := requestSale_does bot.sale now
          ((s.recoverOrphanedAutosellMenu bot.orphan now).1.tickForeground bot.foreground now).1
        exact ⟨commands, hdoes.after_calm hforeground, hauto⟩

theorem onTick_does (bot : Tick) (now : ℚ) (s : BehaviorState) :
    ∃ commands, Does now s commands (s.onTick bot now) := by
  have hcalm := ((recoverLoadedWorld_calm bot.recovery now s).trans
    (interruptForPause_calm bot.pause now _)).trans (closeCancelledSellMenu_calm bot.manual now _)
  rw [onTick]
  dsimp only
  generalize closeCancelledSellMenu bot.manual now _ = closed at hcalm ⊢
  obtain ⟨commands, hmanual⟩ := tickManualChat_does bot.manual bot.sent now closed
  split
  · obtain ⟨later, hlater, hauto⟩ :=
      automate_does bot now (closed.tickManualChat bot.manual bot.sent now).1
    exact ⟨commands ++ later, (hmanual.trans hlater hauto).after_calm hcalm⟩
  · exact ⟨commands, hmanual.after_calm hcalm⟩

theorem onControlEvent_does (bot multipliers : Client) (sent : Bool) (now : ℚ)
    (s : BehaviorState) :
    ∃ commands, Does now s commands (s.onControlEvent bot multipliers sent now) := by
  obtain ⟨commands, hmanual⟩ :=
    tickManualChat_does bot sent now (s.closeCancelledSellMenu bot now)
  have hdoes := hmanual.after_calm (closeCancelledSellMenu_calm bot now s)
  rw [onControlEvent]
  split
  · rename_i progress htask
    exact ⟨commands,
      hdoes.then_calm (advanceSellMultipliers_calm multipliers now progress (by rw [htask]; rfl))⟩
  · exact ⟨commands, hdoes⟩

/-- Any event: what it does about commands, and then what it queues. -/
theorem apply_does (now : ℚ) (event : Event) (s : BehaviorState) :
    ∃ t commands, Does now s commands t ∧
      s.apply now event = { t with manualChatQueue := t.manualChatQueue ++ event.queued } := by
  have hdone {t : BehaviorState} (h : ∃ commands, Does now s commands t)
      (hqueued : event.queued = []) :
      ∃ t' commands, Does now s commands t' ∧
        t = { t' with manualChatQueue := t'.manualChatQueue ++ event.queued } := by
    obtain ⟨commands, hdoes⟩ := h
    exact ⟨t, commands, hdoes, by rw [hqueued, List.append_nil]⟩
  have hcalm {t : BehaviorState} (h : Calm s t) : ∃ commands, Does now s commands t :=
    ⟨[], .of_calm h⟩
  cases event with
  | tick bot => exact hdone (onTick_does bot now s) rfl
  | controlEvent bot multipliers sent =>
      exact hdone (onControlEvent_does bot multipliers sent now s) rfl
  | login bot => exact hdone (hcalm (onLogin_calm bot now s)) rfl
  | respawn bot => exact hdone (hcalm (onRespawn_calm bot now s)) rfl
  | spawn bot => exact hdone (hcalm (onSpawn_calm bot now s)) rfl
  | positionSync bot => exact hdone (hcalm (onPositionSync_calm bot now s)) rfl
  | menuOpen id title => exact hdone (hcalm (onMenuOpen_calm id title now s)) rfl
  | containerContent bot id items =>
      exact hdone (hcalm (onContainerContent_calm bot id items now s)) rfl
  | multiplierSlot id => exact hdone (hcalm (onMultiplierSlot_calm id now s)) rfl
  | chat bot message => exact hdone (hcalm (onChat_calm bot message now s)) rfl
  | updateConfig config => exact hdone (hcalm (.same rfl rfl rfl id)) rfl
  | pauseAutosell afterMs resumeMs => exact hdone (hcalm (.same rfl rfl rfl id)) rfl
  | enqueueCleanSpawner => exact hdone (hcalm (enqueueCleanSpawner_calm s)) rfl
  | enqueueSellMultipliers => exact ⟨s, [], .of_calm (Calm.refl s), rfl⟩
  | enqueueChat text =>
      refine ⟨s, [], .of_calm (Calm.refl s), ?_⟩
      rw [BehaviorState.apply, enqueueChat, Event.queued]
      split
      · rw [List.append_nil]
      · rfl

/-! ### Runs -/

theorem sendTimes_filter (done : List (ℚ × Action)) :
    sendTimes (done.filter (·.2.isCommand)) = sendTimes done := by
  rw [sendTimes, sendTimes, List.filter_filter]
  congr 2
  funext e
  cases e.2 <;> simp [Action.isSent, Action.isCommand]

theorem sentTasks_filter (done : List (ℚ × Action)) :
    sentTasks (done.filter (·.2.isCommand)) = sentTasks done := by
  rw [sentTasks, sentTasks, List.filterMap_filter]
  congr 1
  funext e
  cases e.2 <;> simp [Action.sentTask, Action.isCommand]

/-- The messages so far keep the budget of three at once and one every one and a half seconds. -/
def InBudget (b : CommandBudget) (times : List ℚ) : Prop :=
  TokenBucket.Paced chatBurst (2 / 3) b.tokens b.updatedAt times

theorem InBudget.refill {b : CommandBudget} {times : List ℚ} (h : InBudget b times)
    (hnow : b.updatedAt ≤ now) : InBudget (b.refill now) times := by
  have hfill : max (now - b.updatedAt) 0 / (3 / 2) = (now - b.updatedAt) * (2 / 3) := by
    rw [max_eq_left (sub_nonneg.mpr hnow)]
    ring
  rw [InBudget, CommandBudget.refill, hfill]
  exact TokenBucket.Paced.refill h (by norm_num [chatBurst]) (by norm_num) hnow

theorem Spends.inBudget {b b' : CommandBudget} {commands : List Action} {times : List ℚ}
    (h : Spends now b commands b') (hb : InBudget b times) (hnow : b.updatedAt ≤ now) :
    InBudget b' (times ++ sendTimes (commands.map (now, ·))) ∧ b'.updatedAt ≤ now := by
  induction h generalizing times with
  | nil b => simpa [sendTimes] using ⟨hb, hnow⟩
  | refill _ ih => exact ih (hb.refill hnow) le_rfl
  | @send b b' action commands hsent hlast htoken _ ih =>
      have hspent : InBudget b.record (times ++ [now]) := by
        rw [← hlast]
        exact TokenBucket.Paced.spend hb (by norm_num) htoken
      have hrest := ih hspent hnow
      rw [List.append_assoc] at hrest
      simpa [sendTimes, hsent] using hrest
  | fail hfailed _ ih =>
      have hrest := ih hb hnow
      simpa [sendTimes, hfailed] using hrest

/-- What a run of events keeps. -/
structure Ledger (queued : List ManualTask) (bot : Bot) : Prop where
  budget : InBudget bot.state.commandBudget (sendTimes bot.state.outbox)
  clock : bot.state.commandBudget.updatedAt ≤ bot.now
  tasks : sentTasks bot.state.outbox ++ bot.state.manualChatQueue = queued

theorem Ledger.step {queued : List ManualTask} {bot : Bot} (h : Ledger queued bot)
    (input : ℚ≥0 × Event) : Ledger (queued ++ input.2.queued) (step bot input) := by
  have hnow : bot.now ≤ bot.now + input.1 := le_add_of_nonneg_right input.1.2
  obtain ⟨t, commands, hdoes, happly⟩ := apply_does (bot.now + input.1) input.2 bot.state
  obtain ⟨done, hdone, hcommands⟩ := hdoes.outbox
  obtain ⟨hbudget, hclock⟩ := hdoes.budget.inBudget h.budget (h.clock.trans hnow)
  rw [← hcommands, sendTimes_filter, ← sendTimes_append, ← hdone] at hbudget
  have hsent : sentTasks done = commands.filterMap Action.sentTask := by
    rw [← sentTasks_filter, hcommands, sentTasks, List.filterMap_map]
    rfl
  rw [RustBehaviors.step, happly]
  refine ⟨hbudget, hclock, ?_⟩
  dsimp only
  rw [hdone, sentTasks_append, hsent, ← h.tasks, ← hdoes.queue]
  simp only [List.append_assoc]

theorem ledger_run (now : ℚ) (config : BehaviorConfig) (pauseAfterMs resumeAfterMs : ℕ)
    (inputs : List (ℚ≥0 × Event)) :
    Ledger (inputs.flatMap (·.2.queued))
      (run step (.start now config pauseAfterMs resumeAfterMs) inputs) := by
  induction inputs using List.reverseRecOn with
  | nil => exact ⟨.start now (by norm_num [chatBurst]) (by norm_num), le_rfl, rfl⟩
  | append_singleton inputs input ih =>
      have hstep := ih.step input
      rwa [run, List.foldl_append, List.flatMap_append, List.flatMap_singleton]

/-- No window of time holds more messages than the budget has. Manual commands are sent in the
order they were queued, each at most once, and one that could not be sent stays at the head. -/
theorem messages_within_budget (now : ℚ) (config : BehaviorConfig) (pauseAfterMs resumeAfterMs : ℕ)
    (inputs : List (ℚ≥0 × Event)) :
    let bot := run step (.start now config pauseAfterMs resumeAfterMs) inputs
    (∀ (T : ℚ) (D : ℚ≥0),
      (TokenBucket.between (sendTimes bot.state.outbox) T (T + D) : ℤ) ≤
        3 + ⌊(D : ℚ) / (3 / 2)⌋) ∧
    sentTasks bot.state.outbox ++ bot.state.manualChatQueue = inputs.flatMap (·.2.queued) ∧
    ∀ input : ℚ≥0 × Event, ∃ done,
      (step bot input).state.outbox = bot.state.outbox ++ done ∧
      ∀ time task, (time, Action.manual task false) ∈ done →
        (step bot input).state.manualChatQueue = bot.state.manualChatQueue ++ input.2.queued ∧
        (step bot input).state.manualChatQueue.head? = some task := by
  intro bot
  have hledger := ledger_run now config pauseAfterMs resumeAfterMs inputs
  refine ⟨fun T D => ?_, hledger.tasks, fun input => ?_⟩
  · have hwindow := TokenBucket.Paced.window_floor hledger.budget 3 rfl T (NNRat.coe_nonneg D)
    have hrate : (D : ℚ) / (3 / 2) = D * (2 / 3) := by ring
    rw [hrate]
    exact hwindow
  · obtain ⟨t, commands, hdoes, happly⟩ := apply_does (bot.now + input.1) input.2 bot.state
    obtain ⟨done, hdone, hcommands⟩ := hdoes.outbox
    refine ⟨done, by rw [step, happly]; exact hdone, fun time task htask => ?_⟩
    have hfailed : Action.manual task false ∈ commands := by
      have hmem : (time, Action.manual task false) ∈ done.filter (·.2.isCommand) :=
        List.mem_filter.mpr ⟨htask, rfl⟩
      rw [hcommands, List.mem_map] at hmem
      obtain ⟨action, haction, heq⟩ := hmem
      exact (Prod.mk.inj heq).2 ▸ haction
    obtain ⟨hqueue, hhead⟩ := hdoes.failed task hfailed
    rw [step, happly]
    dsimp only
    rw [hqueue]
    refine ⟨rfl, ?_⟩
    cases hold : bot.state.manualChatQueue with
    | nil => simp [hold] at hhead
    | cons first rest => simpa [hold] using hhead

end AfkClient.RustBehaviors
