import AfkClient.Library.Meter
import AfkClient.Verification.Behaviors.Steps

/-! The budget of commands. A command is paid for once the game accepted it, from credits
that a tick has counted before it sent the command: a rejected command costs nothing,
and credits that ripen while a command waits to be sent are counted twice. -/

namespace AfkClient.Behaviors

open AfkClient.Task

attribute [local irreducible] Re.test Re.capture

/-! ### The purse -/

structure Purse where
  commandCredits : ℤ
  creditAt : ℤ
  now : ℤ

def purse (s : Behaviors) : Purse := ⟨s.commandCredits, s.creditAt, s.now⟩

/-- The credits in milliseconds, with the time that counts towards the next one. -/
def funds (s : Behaviors) : ℤ := 1500 * s.commandCredits + (s.now - s.creditAt)

structure Sane (s : Behaviors) : Prop where
  now : 0 ≤ s.now
  creditAt : s.creditAt ≤ s.now
  nonneg : 0 ≤ s.commandCredits
  cap : s.commandCredits ≤ 3

/-- Time passed, and nothing was earned or spent. -/
structure Waited (s t : Behaviors) : Prop where
  credits : t.commandCredits = s.commandCredits
  creditAt : t.creditAt = s.creditAt
  now : s.now ≤ t.now

theorem Sane.waited {s t : Behaviors} (h : s.Sane) (hw : s.Waited t) : t.Sane := by
  obtain ⟨hnow, hat, hnonneg, hcap⟩ := h
  obtain ⟨hcredits, hsince, hlate⟩ := hw
  exact ⟨by omega, by omega, by omega, by omega⟩

theorem Waited.of_purse {s t : Behaviors} (h : purse t = purse s) : s.Waited t := by
  simp only [purse, Purse.mk.injEq] at h
  exact ⟨h.1, h.2.1, h.2.2.ge⟩

theorem Waited.trans {s t u : Behaviors} (h : s.Waited t) (h' : t.Waited u) : s.Waited u where
  credits := h'.credits.trans h.credits
  creditAt := h'.creditAt.trans h.creditAt
  now := Int.le_trans h.now h'.now

theorem earnCredits_now (s : Behaviors) (n : ℤ) : (s.earnCredits n).now = s.now := by
  simp only [earnCredits]
  split_ifs <;> rfl

theorem Sane.earnCredits {s : Behaviors} (h : s.Sane) {n : ℤ} (hn : n ≤ s.now) :
    (s.earnCredits n).Sane := by
  obtain ⟨hnow, hat, hnonneg, hcap⟩ := h
  refine ⟨by rwa [earnCredits_now], ?_, ?_, ?_⟩
  all_goals
    simp only [Behaviors.earnCredits]
    split_ifs <;> dsimp only <;> omega

/-- Counting the credits never adds to the funds. -/
theorem earnCredits_funds (s : Behaviors) {n : ℤ} (h₀ : 0 ≤ n) :
    (s.earnCredits n).funds ≤ s.funds := by
  simp only [Behaviors.earnCredits, funds]
  split_ifs <;> dsimp only <;> omega

/-! ### Frames -/

/-- The task neither earns nor spends. -/
abbrev Thrifty {α : Type} (t : Code α) : Prop := t.Within purse NotChat

theorem purse_of_stock {s s' : Behaviors} (h : stock s = stock s') : purse s = purse s' := by
  simp only [stock, Stock.mk.injEq] at h
  simp only [purse, h]

theorem Silent.thrifty {α : Type} {t : Code α} (h : Silent t) : Thrifty t :=
  h.mono (fun _ _ => purse_of_stock) fun _ hc => hc

theorem InMenus.thrifty {α : Type} {t : Code α} (h : InMenus t) : Thrifty t := h.silent.thrifty

theorem purse_runSneakChecks (s : Behaviors) (n : ℤ) : purse (s.runSneakChecks n) = purse s := by
  simp only [runSneakChecks, checkSneak]
  split_ifs <;> rfl

/-! ### Segments -/

/-- How the code between two calls began, and whether it owes for a command. -/
structure Segment where
  start : Behaviors
  owes : Bool := false

/-- Since its segment began, the task at most counted credits, and paid what it owed. -/
structure Settled (g : Segment) (s : Behaviors) : Prop where
  sane : s.Sane
  now : s.now = g.start.now
  funds : s.funds + (if g.owes then 1500 else 0) ≤ g.start.funds

/-- A chat message of a segment that opens no sale. -/
def asksFor (since asked : Behaviors) : GameCall → Bool
  | .chat _ => asked.nextId = since.nextId
  | _ => false

/-- A command needs a credit, and the segment behind an accepted one owes for it. -/
def budget : Protocol Behaviors GameCall GameCall.Reply Failure Segment where
  call g c s := Settled g s ∧ (asksFor g.start s c → 1 ≤ s.commandCredits)
  back _ _ s _ s' := s.Waited s'
  next g c s a s' := ⟨s', asksFor g.start s c && a.isOk⟩

/-- Settled, at `n` or later, with `m` credits at least. -/
structure Good (n m : ℤ) (g : Segment) (s : Behaviors) : Prop where
  settled : Settled g s
  now : n ≤ s.now
  credits : m ≤ s.commandCredits

variable {n m : ℤ} {g : Segment} {s : Behaviors}

theorem Sane.start {s s' : Behaviors} (h : s.Sane) (hw : s.Waited s') : Settled ⟨s', false⟩ s' :=
  ⟨h.waited hw, rfl, by simp⟩

theorem Settled.of_purse {s' : Behaviors} (h : Settled g s) (hp : purse s' = purse s) :
    Settled g s' := by
  simp only [purse, Purse.mk.injEq] at hp
  obtain ⟨hc, ha, hn⟩ := hp
  obtain ⟨⟨hnow, hat, hnonneg, hcap⟩, hstart, hfunds⟩ := h
  refine ⟨⟨by omega, by omega, by omega, by omega⟩, by omega, ?_⟩
  simp only [Behaviors.funds, hc, ha, hn] at hfunds ⊢
  exact hfunds

theorem Good.of_purse {s' : Behaviors} (h : Good n m g s) (hp : purse s' = purse s) :
    Good n m g s' := by
  have hsettled := h.settled.of_purse hp
  simp only [purse, Purse.mk.injEq] at hp
  exact ⟨hsettled, by rw [hp.2.2]; exact h.now, by rw [hp.1]; exact h.credits⟩

/-- Code that neither earns nor spends keeps to the budget, and keeps its credits. -/
theorem Thrifty.follows {α : Type} {t : Code α} (ht : Thrifty t) (h : Good n m g s) :
    t.Follows budget (fun g _ s => Good n m g s) g s := by
  refine Within.follows ht (fun g s s' hp hg => hg.of_purse hp) (fun g c s hc hg => ?_) h
  have hask : asksFor g.start s c = false := by
    cases c <;> first | rfl | exact hc.elim
  refine ⟨⟨hg.settled, by simp [hask]⟩, fun a s' hb => ?_⟩
  simp only [budget, hask, Bool.false_and]
  exact ⟨hg.settled.sane.start hb, Int.le_trans hg.now hb.now, by rw [hb.credits]; exact hg.credits⟩

/-! ### Sending a command -/

/-- The end of every segment. -/
abbrev Ends {α : Type} (g : Segment) (_ : Except Failure α) (s : Behaviors) : Prop := Settled g s

theorem Thrifty.ends {α : Type} {t : Code α} (ht : Thrifty t) (h : Settled g s) :
    t.Follows budget Ends g s :=
  (ht.follows (n := g.start.now) (m := 0) ⟨h, h.now.ge, h.sane.nonneg⟩).mono fun _ _ _ hg => hg.settled

theorem dispatch_ends (text : String) (h : Good n 1 g s) :
    (dispatch text false).Follows budget Ends g s := by
  unfold dispatch
  split
  · exact ((emitting_inMenus _).thrifty.follows h).bind (fun _ _ _ hg => hg.settled)
      fun _ _ _ hg => hg.settled
  · refine follows_bind.mpr (follows_perform.mpr ⟨⟨h.settled, fun _ => h.credits⟩, fun a s' hb => ?_⟩)
    have hfresh := h.settled.sane.start hb
    have hcredits := hb.credits
    have hlow := h.credits
    cases a with
    | error e => simpa [budget, Except.isOk, Except.toBool] using hfresh
    | ok a =>
        obtain ⟨⟨hpast, hearned, hnonneg, hcap⟩, -, -⟩ := hfresh
        refine follows_when.mpr ?_
        refine ⟨⟨hpast, hearned, ?_, ?_⟩, rfl, ?_⟩
        · change 0 ≤ s'.commandCredits - 1
          omega
        · change s'.commandCredits - 1 ≤ 3
          omega
        · simp only [budget, Behaviors.funds]
          split_ifs <;> omega

theorem dispatch_bind_ends (text : String) {f : Unit → Code Unit} (h : Good n 1 g s)
    (hf : ∀ a, Thrifty (f a)) : (dispatch text false >>= f).Follows budget Ends g s :=
  (dispatch_ends text h).bind (fun _ a _ hg => Thrifty.ends (hf a) hg) fun _ _ _ hg => hg

theorem orCatch_ends {t : Code Unit} {handler : Failure → Code Unit}
    (ht : t.Follows budget Ends g s) (hh : ∀ e, Thrifty (handler e)) :
    (t.orCatch handler).Follows budget Ends g s :=
  ht.orCatch (fun _ _ _ hg => hg) fun _ e _ hg => Thrifty.ends (hh e) hg

theorem readMultipliers_ends (generation : ℕ) (menu : String) (h : Good n 1 g s) :
    (readMultipliers generation menu).Follows budget Ends g s :=
  dispatch_bind_ends _ h fun _ => .bind within_read fun _ => .when _ (setForeground_inMenus _).thrifty

theorem typeCommand_ends (text : String) (h : Good n 1 g s) :
    (typeCommand text).Follows budget Ends g s := by
  have hnavigate : Thrifty (.when (isNavigation text) (navigate text)) :=
    .when _ (navigate_silent text).thrifty
  have hlog : Thrifty (.when (isTeleportAnswer text) (.update scheduleSneak) >>=
      fun _ => emitting (.behaviorLog s!"Command dispatched: {text}")) :=
    .bind (.when _ (within_update.mpr fun _ => rfl)) fun _ => (emitting_inMenus _).thrifty
  refine (Thrifty.follows (within_update.mpr fun s => ?_) h).bind (fun g _ s hg => ?_)
    fun _ _ _ hg => hg.settled
  · split <;> rfl
  refine (hnavigate.follows hg).bind (fun g _ s hg => ?_) fun _ _ _ hg => hg.settled
  exact dispatch_bind_ends text hg fun _ => .bind (within_update.mpr fun _ => rfl) fun _ => hlog

theorem runCommand_ends (command : Command) (h : Good n 1 g s) :
    (runCommand command).Follows budget Ends g s := by
  have hclose (inventory : GameInventory) : Thrifty
      (.when (inventory.containerSlots ≠ []) (await (.close inventory.menuId))) :=
    .when _ (within_perform.mpr trivial)
  refine ((suspendSell_silent _).thrifty.follows h).bind (fun g _ s hg => ?_) fun _ _ _ hg => hg.settled
  refine follows_read_bind.mpr (follows_update_bind.mpr ?_)
  have hcleared : Good n 1 g { s with sell := none, foreground := none } := hg.of_purse rfl
  refine ((openMenu_inMenus _).thrifty.follows hcleared).bind (fun g inventory s hg => ?_)
    fun _ _ _ hg => hg.settled
  refine ((hclose inventory).follows hg).bind (fun g _ s hg => ?_) fun _ _ _ hg => hg.settled
  have hmanual : Good n 1 g { s with manualUntil := s.now + 5000 } := hg.of_purse rfl
  refine follows_update_bind.mpr ?_
  cases command.type with
  | readSellMultipliers => exact readMultipliers_ends _ _ hmanual
  | cleanSpawner => exact Thrifty.ends (cleanSpawner_silent _ _).thrifty hmanual.settled
  | chat =>
      dsimp only
      split
      · exact typeCommand_ends _ hmanual
      · exact hmanual.settled

/-- Counting the credits up to `n`. -/
theorem creditReady_follows (h₀ : 0 ≤ n) (h : Good n m g s) :
    (creditReady n).Follows budget
      (fun g r s => Good n 0 g s ∧ (r = .ok true → Good n 1 g s)) g s := by
  have hearned : Settled g (s.earnCredits n) := by
    refine ⟨h.settled.sane.earnCredits h.now, ?_, ?_⟩
    · rw [earnCredits_now]
      exact h.settled.now
    · have hle := earnCredits_funds s h₀
      have hfunds := h.settled.funds
      omega
  have hnow : n ≤ (s.earnCredits n).now := by
    rw [earnCredits_now]
    exact h.now
  refine ⟨⟨hearned, hnow, hearned.sane.nonneg⟩, fun hr => ⟨hearned, hnow, ?_⟩⟩
  simpa using hr

theorem takeCommand_ends (command : Command) (h₀ : 0 ≤ n) (h : Good n m g s) :
    (takeCommand command n).Follows budget Ends g s := by
  refine (creditReady_follows h₀ h).bind (fun g ready s hg => ?_) fun _ _ _ hg => hg.1.settled
  cases ready with
  | false => exact hg.1.settled
  | true =>
      have htaken : Good n 1 g { s with commands := s.commands.tail } := (hg.2 rfl).of_purse rfl
      refine follows_update_bind.mpr ?_
      exact orCatch_ends (runCommand_ends command htaken) fun _ => (emitting_inMenus _).thrifty

theorem returnHome_ends (h : Good n 1 g s) : (returnHome n).Follows budget Ends g s := by
  refine follows_update_bind.mpr (follows_read_bind.mpr ?_)
  refine orCatch_ends (dispatch_bind_ends _ (h.of_purse rfl) fun _ => ?_) fun error => ?_
  · exact within_update.mpr fun _ => rfl
  · refine within_update.mpr fun s => ?_
    split <;> rfl
/-! ### A tick -/

/-- An automatic sell command needs no credit: it is sent for a sale that was just opened. -/
theorem dispatch_automatic_ends (text : String) (h : Settled g s) (hid : s.nextId ≠ g.start.nextId) :
    (dispatch text true).Follows budget Ends g s := by
  have hask : asksFor g.start s (.chat text) = false := by simpa [asksFor] using hid
  unfold dispatch
  split
  · exact Thrifty.ends (.bind (emitting_inMenus _).thrifty fun _ => within_fail _) h
  · refine follows_bind.mpr (follows_perform.mpr ⟨⟨h, by simp [hask]⟩, fun a s' hb => ?_⟩)
    have hfresh := h.sane.start hb
    simp only [budget, hask, Bool.false_and]
    cases a with
    | error e => exact hfresh
    | ok a => exact hfresh

theorem startSale_ends (generation : ℕ) (now : ℤ) (h : Settled g s) (hid : s.nextId = g.start.nextId) :
    (startSale generation now).Follows budget Ends g s := by
  refine follows_read_bind.mpr (follows_update_bind.mpr ?_)
  have hopened : Settled g { s with
      sell := some { id := s.nextId, requested := now }, nextId := s.nextId + 1 } := h.of_purse rfl
  have hnew : s.nextId + 1 ≠ g.start.nextId := by omega
  refine Follows.bind (Q := Ends) (orCatch_ends (dispatch_automatic_ends _ hopened hnew) fun error => ?_)
    (fun g _ s hg => Thrifty.ends ?_ hg) fun _ _ _ hg => hg
  · refine .bind (within_update.mpr fun t => ?_) fun _ => within_fail _
    split <;> rfl
  · exact .bind within_read fun t => .when _ (within_update.mpr fun t => rfl)

theorem tickSell_ends (now : ℤ) (h : Settled g s) : (tickSell now).Follows budget Ends g s := by
  refine follows_read_bind.mpr (follows_when.mpr ?_)
  split
  · refine follows_bind.mpr (follows_perform.mpr ⟨⟨h, by simp [asksFor]⟩, fun a s' hb => ?_⟩)
    have hfresh : Settled (budget.next g .inventory s a s') s' := h.sane.start hb
    cases a with
    | error e => exact hfresh
    | ok inventory =>
        refine follows_read_bind.mpr (follows_when.mpr ?_)
        split
        · split
          · exact Thrifty.ends (continueSale_inMenus _ _ _).thrifty hfresh
          · split
            · refine Thrifty.ends (.when _ (.bind (within_perform.mpr trivial) fun _ => ?_)) hfresh
              exact within_update.mpr fun _ => rfl
            · refine follows_when.mpr ?_
              split
              · exact startSale_ends _ _ hfresh rfl
              · exact hfresh
        · exact hfresh
  · exact h

theorem tickAutomation_ends (h₀ : 0 ≤ n) (h : Good n m g s) :
    (tickAutomation n).Follows budget Ends g s := by
  refine follows_read_bind.mpr ?_
  split
  · exact Thrifty.ends cancelSell_inMenus.thrifty h.settled
  split
  · exact h.settled
  split
  · exact Thrifty.ends (tickForeground_inMenus n).thrifty h.settled
  split
  · refine follows_when.mpr ?_
    split
    · refine (creditReady_follows h₀ h).bind (fun g ready s hg => ?_) fun _ _ _ hg => hg.1.settled
      cases ready with
      | false => exact hg.1.settled
      | true => exact returnHome_ends (hg.2 rfl)
    · exact h.settled
  · refine follows_when.mpr ?_
    split
    · exact tickSell_ends n h.settled
    · exact h.settled

theorem tickTasks_ends (h₀ : 0 ≤ n) (h : Good n 0 g s) : (tickTasks n).Follows budget Ends g s := by
  refine (settleSavedHome_silent.thrifty.follows h).bind (fun g _ s hg => ?_) fun _ _ _ hg => hg.settled
  refine follows_read_bind.mpr (follows_when.mpr ?_)
  split
  · refine ((reassertSneak_silent n).thrifty.follows hg).bind (fun g _ s hg => ?_) fun _ _ _ hg => hg.settled
    refine follows_read_bind.mpr ?_
    split
    · exact takeCommand_ends _ h₀ hg
    · exact tickAutomation_ends h₀ hg
  · exact hg.settled

theorem tick_ends (h : s.Sane) : tick.Follows budget Ends ⟨s, false⟩ s := by
  have hgood : Good s.now 0 ⟨s, false⟩ s := ⟨h.start (.of_purse rfl), Int.le_refl _, h.nonneg⟩
  refine follows_read_bind.mpr (follows_when.mpr ?_)
  split
  · exact (settleHomeGate_silent.thrifty.follows hgood).bind (fun _ _ _ hg => tickTasks_ends h.now hg)
      fun _ _ _ hg => hg.settled
  · exact hgood.settled

/-! ### Rounds -/

/-- A waiting task for which the budget holds; `owes` is of the segment in front of its call. -/
def Waiting.Budgeted (w : Waiting) (owes : Bool) : Prop :=
  budget.call ⟨w.since, owes⟩ w.call w.asked ∧
    ∀ a s', budget.back ⟨w.since, owes⟩ w.call w.asked a s' →
      (w.next a).Follows budget Ends (budget.next ⟨w.since, owes⟩ w.call w.asked a s') s'

/-- The task waits for the game to accept a command. -/
def Waiting.isCommand (w : Waiting) : Bool := asksFor w.since w.asked w.call

/-- What the code between two calls leaves behind. -/
theorem runCode_budget {t : Code Unit} {owes : Bool} (h : t.Follows budget Ends ⟨s, owes⟩ s) :
    Settled ⟨s, owes⟩ (runCode s t).1 ∧
      ∀ w ∈ (runCode s t).2, w.since = s ∧ w.asked = (runCode s t).1 ∧ w.Budgeted owes := by
  obtain ⟨hnone, r, hends⟩ | ⟨w, hsome, hsince, hasked, hw⟩ := runCode_follows h
  · exact ⟨hends, by simp [hnone]⟩
  · refine ⟨hasked ▸ hw.1.1, fun v hv => ?_⟩
    obtain rfl : w = v := by simpa [hsome] using hv
    refine ⟨hsince, hasked, ?_⟩
    unfold Waiting.Budgeted
    rw [hsince]
    exact hw

/-- A waiting task that neither earns nor spends. -/
def Waiting.Idle (w : Waiting) : Prop := NotChat w.call ∧ ∀ a, Thrifty (w.next a)

theorem runCode_thrifty {t : Code Unit} (h : Thrifty t) (s : Behaviors) :
    purse (runCode s t).1 = purse s ∧ ∀ w ∈ (runCode s t).2, w.Idle := runCode_within h s

theorem Waiting.Idle.not_command {w : Waiting} (h : w.Idle) : w.isCommand = false := by
  obtain ⟨hc, -⟩ := h
  unfold isCommand asksFor
  split
  · rename_i heq
    simp [heq, NotChat] at hc
  · rfl

namespace Scheduler

/-- What every run keeps: the budget of the round, while the credits stand still. -/
structure Solvent (b : Scheduler) : Prop where
  sane : b.vars.Sane
  round : ∀ w ∈ b.round, (∃ owes, w.Budgeted owes) ∧ w.asked.Waited b.vars
  spawns : ∀ w ∈ b.spawns, w.Idle

/-- The step sends a command. -/
def sendsCommand (b : Scheduler) (i : Input) : Bool := (b.step i).made.any Waiting.isCommand

/-- The funds without those that a command in flight will take. -/
def level (b : Scheduler) : ℤ :=
  b.vars.funds - if b.round.any Waiting.isCommand then 1500 else 0

theorem init_solvent (config : BehaviorConfig) (game : GameGateway) (letterOrNumber : Char → Bool) :
    (init config game letterOrNumber).Solvent where
  sane := ⟨Int.le_refl 0, Int.le_refl 0, show (0 : ℤ) ≤ 3 by decide, Int.le_refl 3⟩
  round := by simp [init]
  spawns := by simp [init]

/-- Time does not run backwards. -/
def Forward (b : Scheduler) : Input → Prop
  | .clock now => b.vars.now ≤ now
  | _ => True

instance (b : Scheduler) (i : Input) : Decidable (b.Forward i) := by
  unfold Forward
  split <;> infer_instance

/-- The game accepts the command it was sent. -/
def Accepted (b : Scheduler) : Input → Prop
  | .answer 0 answers => ∀ w ∈ b.round, w.isCommand → (answers w.call).isOk
  | _ => True

instance (b : Scheduler) (i : Input) : Decidable (b.Accepted i) := by
  unfold Accepted
  split <;> infer_instance

/-- A command is sent before credits that ripened since its tick began overfill the purse. -/
def Prompt (b : Scheduler) (i : Input) : Prop :=
  ∀ w ∈ (b.step i).made, w.isCommand →
    w.asked.commandCredits + (w.asked.now - w.asked.creditAt) / 1500 ≤ 3

instance (b : Scheduler) (i : Input) : Decidable (b.Prompt i) :=
  inferInstanceAs (Decidable (∀ w ∈ (b.step i).made, _))

theorem purse_method {i : Input} {f : Behaviors → Behaviors} (h : i.method = some f)
    (hclock : ∀ now, i ≠ .clock now) (s : Behaviors) : purse (f s) = purse s := by
  cases i with
  | chat sender message =>
      obtain rfl : (fun s => s.onChat sender message) = f := by simpa [Input.method] using h
      exact purse_of_stock (stock_onChat s sender message)
  | enqueue type text =>
      obtain rfl : (fun s => s.enqueue type text) = f := by simpa [Input.method] using h
      simp only [enqueue]
      split_ifs <;> rfl
  | checkSneak =>
      obtain rfl : Behaviors.checkSneak = f := by simpa [Input.method] using h
      unfold Behaviors.checkSneak
      split <;> rfl
  | pause afterMs resumeMs =>
      obtain rfl : (fun s => s.pause afterMs resumeMs) = f := by simpa [Input.method] using h
      simp only [pause]
      split <;> rfl
  | joining =>
      obtain rfl : Behaviors.joining = f := by simpa [Input.method] using h
      rfl
  | transition =>
      obtain rfl : Behaviors.transition = f := by simpa [Input.method] using h
      rfl
  | clock now => exact absurd rfl (hclock now)
  | _ => simp [Input.method] at h

theorem Solvent.waited {b : Scheduler} (h : b.Solvent) {s : Behaviors} (hw : b.vars.Waited s)
    (made : Option Waiting) : Solvent ⟨s, b.round, b.spawns, made⟩ where
  sane := h.sane.waited hw
  round w hr := ⟨(h.round w hr).1, (h.round w hr).2.trans hw⟩
  spawns := h.spawns

/-- The next piece of the round keeps to the budget, and pays for a command in flight. -/
theorem Begins.budget {b : Scheduler} (h : b.Solvent) {i : Input} (hi : b.Accepted i) {t : Code Unit}
    (ht : b.Begins i t) : ∃ owes, t.Follows budget Ends ⟨b.fresh, owes⟩ b.fresh ∧
      (b.round.any Waiting.isCommand → owes = true) := by
  have hsane : b.fresh.Sane := h.sane.waited (.of_purse rfl)
  cases ht with
  | tick hround => exact ⟨false, tick_ends hsane, by simp [hround]⟩
  | configure hround config =>
      exact ⟨false, Thrifty.ends (configure_silent config).thrifty (hsane.start (.of_purse rfl)), by simp [hround]⟩
  | @answer w hround answers =>
      obtain ⟨⟨owes, -, hnext⟩, hwaited⟩ := h.round w hround
      refine ⟨_, hnext (answers w.call) b.fresh (hwaited.trans (.of_purse rfl)), fun hcommand => ?_⟩
      have hw : w.isCommand = true := by simpa [hround] using hcommand
      have hok := hi w hround hw
      simp only [Bool.and_eq_true]
      exact ⟨hw, hok⟩

theorem Besides.idle {b : Scheduler} (h : b.Solvent) {i : Input} {t : Code Unit}
    {spawns : List Waiting} (ht : b.Besides i t spawns) : Thrifty t ∧ ∀ w ∈ spawns, w.Idle := by
  cases ht with
  | spawned => exact ⟨spawned_silent.thrifty, h.spawns⟩
  | @answer w k hk answers =>
      have hw := h.spawns w (List.mem_of_getElem? hk)
      exact ⟨hw.2 _, fun v hv => h.spawns v (List.mem_of_mem_eraseIdx hv)⟩

/-- The level after a step, what a command takes included. -/
structure Pays (b b' : Scheduler) (made : Option Waiting) : Prop where
  solvent : b'.Solvent
  now : b.vars.now ≤ b'.vars.now
  level : b'.level + (if made.any Waiting.isCommand then 1500 else 0) ≤
    b.level + (b'.vars.now - b.vars.now)
  rests : made.any Waiting.isCommand → b'.level < 4500 ∧ b'.vars.now = b.vars.now

theorem step_pays {b : Scheduler} (h : b.Solvent) {i : Input} (hforward : b.Forward i)
    (hi : b.Accepted i) (hprompt : b.Prompt i) : Pays b (b.step i) (b.step i).made := by
  have hmoves := b.step_moves i
  unfold Prompt at hprompt
  generalize b.step i = b' at hmoves hprompt
  have hquiet {s : Behaviors} (hw : b.vars.Waited s) : Pays b ⟨s, b.round, b.spawns, none⟩ none := by
    refine ⟨h.waited hw none, hw.now, ?_, by simp⟩
    obtain ⟨hcredits, hat, hnow⟩ := hw
    simp only [level, funds]
    split_ifs <;> simp_all <;> omega
  cases hmoves with
  | none => exact hquiet (.of_purse rfl)
  | @method f hf =>
      by_cases hclock : ∃ now, i = .clock now
      · obtain ⟨now, rfl⟩ := hclock
        obtain rfl : (fun s : Behaviors => { s with now := now }) = f := by
          simpa [Input.method] using hf
        exact hquiet ⟨rfl, rfl, hforward⟩
      · exact hquiet (.of_purse (purse_method hf (fun now hn => hclock ⟨now, hn⟩) b.fresh))
  | @round t ht =>
      obtain ⟨owes, hfollows, howes⟩ := ht.budget h hi
      obtain ⟨hsettled, hmade⟩ := runCode_budget hfollows
      generalize runCode b.fresh t = r at hsettled hmade hprompt
      have hnow : r.1.now = b.vars.now := hsettled.now
      have hfunds : r.1.funds + (if owes then 1500 else 0) ≤ b.vars.funds := hsettled.funds
      refine ⟨⟨hsettled.sane, fun w hw => ?_, h.spawns⟩, hnow.ge, ?_, fun hcommand => ⟨?_, hnow⟩⟩
      · obtain ⟨-, hasked, hbudgeted⟩ := hmade w hw
        exact ⟨⟨owes, hbudgeted⟩, .of_purse (by rw [hasked])⟩
      · simp only [level]
        cases hcommand : b.round.any Waiting.isCommand with
        | false => split_ifs at hfunds ⊢ <;> simp_all <;> omega
        | true =>
            rw [if_pos (howes hcommand)] at hfunds
            split_ifs <;> simp_all <;> omega
      · obtain ⟨w, hw, hcommand'⟩ := (Option.any_eq_true _ _).mp hcommand
        have hroom := hprompt w hw hcommand'
        rw [(hmade w hw).2.1] at hroom
        simp only [level, hcommand, if_true, funds]
        omega
  | @beside t spawns ht =>
      obtain ⟨hthrifty, hspawns⟩ := ht.idle h
      obtain ⟨hp, hmade⟩ := runCode_thrifty hthrifty b.fresh
      generalize runCode b.fresh t = r at hp hmade
      have hnone : r.2.any Waiting.isCommand = false := by
        cases hr : r.2 with
        | none => rfl
        | some w => exact (hmade w hr).not_command
      have hpays := hquiet (.of_purse hp)
      refine ⟨⟨hpays.solvent.sane, hpays.solvent.round, fun w hw => ?_⟩, hpays.now, ?_, by simp [hnone]⟩
      · obtain hw | hw := List.mem_append.mp hw
        · exact hmade w (by simpa using hw)
        · exact hspawns w hw
      · simpa [hnone, level] using hpays.level

/-- The commands of a run are metered: a credit for each, three credits and a part of one in stock. -/
theorem metered : Metered step (·.vars.now) sendsCommand Solvent
    (fun b i => b.Forward i ∧ b.Accepted i ∧ b.Prompt i) level 1500 4500 where
  cost_pos := by decide
  keeps b i h hi := (step_pays h hi.1 hi.2.1 hi.2.2).solvent
  clock b i h hi := (step_pays h hi.1 hi.2.1 hi.2.2).now
  nonneg b h := by
    obtain ⟨hnow, hat, hnonneg, hcap⟩ := h.sane
    simp only [level, funds]
    split
    · rename_i hcommand
      obtain ⟨w, hw, hcommand⟩ := (Option.any_eq_true _ _).mp hcommand
      obtain ⟨⟨owes, hbudgeted⟩, hwaited⟩ := h.round w hw
      have hcredit : 1 ≤ w.asked.commandCredits := hbudgeted.1.2 hcommand
      have hsame := hwaited.credits
      omega
    · omega
  fills b i h hi := (step_pays h hi.1 hi.2.1 hi.2.2).level
  rests b i h hi hs := (step_pays h hi.1 hi.2.1 hi.2.2).rests hs

end Scheduler

/-! ### The budget -/

/-- If the game accepts every command it is sent, and no tick waits so long before it sends
one that credits in excess of three ripen meanwhile, then no `D` milliseconds see more
than `4 + D / 1500` commands. -/
theorem command_budget (config : BehaviorConfig) (game : GameGateway) (letterOrNumber : Char → Bool)
    (is : List Input) (hforward : Meets Scheduler.step Scheduler.Forward (.init config game letterOrNumber) is)
    (haccepted : Meets Scheduler.step Scheduler.Accepted (.init config game letterOrNumber) is)
    (hprompt : Meets Scheduler.step Scheduler.Prompt (.init config game letterOrNumber) is)
    (T D : ℤ) (hD : 0 ≤ D) :
    (spentWithin Scheduler.step (·.vars.now) Scheduler.sendsCommand T D
      (.init config game letterOrNumber) is : ℤ) ≤ 4 + D / 1500 := by
  have hwindow := Scheduler.metered.window (T := T) hD (by decide)
    (Scheduler.init_solvent config game letterOrNumber) (hforward.and (haccepted.and hprompt))
  omega

/-- A game that takes no chat messages. -/
def rejecting : (c : GameCall) → Except Failure c.Reply
  | .chat _ => .error { message := "deadline_exceeded" }
  | c => accepting c

/-- A typed command, the tick that takes it and the answers to its two calls. -/
def typed (text : String) (answers : (c : GameCall) → Except Failure c.Reply) : List Input :=
  [.enqueue .chat (some text), .tick, .answer 0 accepting, .answer 0 answers]

/-- Three commands at once, and the first after the next credit. -/
theorem command_budget_burst :
    (spentWithin Scheduler.step (·.vars.now) Scheduler.sendsCommand 0 1501
      (.init {} {} Char.isAlphanum)
      ([.clock 1, .spawned] ++ typed "/a" accepting ++ typed "/b" accepting ++ typed "/c" accepting
        ++ [.clock 1501] ++ typed "/d" accepting) : ℤ) ≤ 4 + 1501 / 1500 :=
  command_budget _ _ _ _ (by decide +kernel) (by decide +kernel) (by decide +kernel) _ _ (by decide)

/-- Five rejected commands go out at once; and five accepted ones within a millisecond,
where the first waits for the inventory until another credit is ripe. -/
theorem commands_overdraw :
    ¬ (∀ (config : BehaviorConfig) (game : GameGateway) (letterOrNumber : Char → Bool) (is : List Input),
      Meets Scheduler.step Scheduler.Forward (.init config game letterOrNumber) is →
      ∀ T D : ℤ, 0 ≤ D → (spentWithin Scheduler.step (·.vars.now) Scheduler.sendsCommand T D
        (.init config game letterOrNumber) is : ℤ) ≤ 4 + D / 1500) ∧
    ¬ (∀ (config : BehaviorConfig) (game : GameGateway) (letterOrNumber : Char → Bool) (is : List Input),
      Meets Scheduler.step Scheduler.Forward (.init config game letterOrNumber) is →
      Meets Scheduler.step Scheduler.Accepted (.init config game letterOrNumber) is →
      ∀ T D : ℤ, 0 ≤ D → (spentWithin Scheduler.step (·.vars.now) Scheduler.sendsCommand T D
        (.init config game letterOrNumber) is : ℤ) ≤ 4 + D / 1500) := by
  constructor
  · intro h
    have hrejected := h {} {} Char.isAlphanum ([.clock 1, .spawned] ++ typed "/a" rejecting ++
      typed "/b" rejecting ++ typed "/c" rejecting ++ typed "/d" rejecting ++ typed "/e" rejecting)
      (by decide +kernel) 1 0 (by decide)
    exact absurd hrejected (by decide +kernel)
  · intro h
    have hlate := h {} {} Char.isAlphanum ([.clock 1, .spawned, .enqueue .chat (some "/a"), .tick,
      .clock 3000, .answer 0 accepting, .answer 0 accepting] ++ typed "/b" accepting ++
      typed "/c" accepting ++ typed "/d" accepting ++ [.clock 3001] ++ typed "/e" accepting)
      (by decide +kernel) (by decide +kernel) 3000 1 (by decide)
    exact absurd hlate (by decide +kernel)

end AfkClient.Behaviors
