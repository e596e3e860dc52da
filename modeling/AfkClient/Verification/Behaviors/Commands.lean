import AfkClient.Verification.Behaviors.Steps

/-! Typed commands. A command leaves the queue before it is run, so an error never brings
it back; a round takes at most one command and says at most one thing for it. -/

namespace AfkClient

/-- What a command says in the chat. -/
def Command.line (c : Command) : Option String :=
  match c.type with
  | .chat => c.text.filter (· ≠ "")
  | .readSellMultipliers => some "/sellmulti"
  | .cleanSpawner => none

/-- The warning about a command that failed. -/
def Command.failure (c : Command) (message : String) : BotEvent :=
  .warning (s!"Befehl {c.text.getD c.type.name} fehlgeschlagen: {message}. Bei einem "
    ++ "Timeout vor erneutem Senden die Serverantwort prüfen.")

def GameCall.message : GameCall → Option String
  | .chat text => some text
  | _ => none

namespace Behaviors

open AfkClient.Task

attribute [local irreducible] Re.test Re.capture

/-! ### What an observer notes -/

/-- A command that left the queue, with the chat messages and the events of its round. -/
structure Execution where
  command : Command
  sent : List String := []
  events : List BotEvent := []

def Execution.note (e : Execution) (made : Option GameCall) (s : Behaviors) : Execution :=
  { e with
    sent := e.sent ++ (made.bind GameCall.message).toList
    events := s.outbox ++ e.events }

/-- What a queue lost at its head. -/
def taken (before after : List Command) : List Execution :=
  (before.take (before.length - after.length)).map fun c => ⟨c, [], []⟩

/-- The steps of the round, in contrast to those beside it. -/
def Input.ofRound : Input → Bool
  | .tick | .configure _ | .answer 0 _ => true
  | _ => false

/-- The command that an input adds to the queue. -/
def Input.adds (s : Behaviors) : Input → List Command
  | .enqueue type text =>
      if (s.enqueue type text).commands = s.commands then [] else [⟨type, text⟩]
  | _ => []

/-- Automation speaks: for a sale, or to return home. -/
def Automatic (s : Behaviors) (c : GameCall) : Prop :=
  (s.sell.isSome ∧ c = .chat s.sellCommand) ∨ (s.returningHome ∧ c = .chat s!"/home {s.home}")

structure CommandLog where
  /-- The commands that the queue accepted, in this order. -/
  accepted : List Command := []
  /-- The commands whose rounds are over, in the order in which they left the queue. -/
  finished : List Execution := []
  /-- Those of the round in progress. -/
  running : List Execution := []
  /-- The chat messages sent while no command was running. -/
  unasked : List Waiting := []

/-- The chat message of the last step. -/
def Scheduler.says (b : Scheduler) : List Waiting := b.made.toList.filter (·.call.message.isSome)

/-- What the observer notes of the step from `b` to `b'`. -/
def CommandLog.note (l : CommandLog) (b : Scheduler) (i : Input) (b' : Scheduler) : CommandLog :=
  if i.ofRound then
    let running := (l.running ++ taken b.vars.commands b'.vars.commands).map
      (·.note (b'.made.map (·.call)) b'.vars)
    { l with
      finished := if b'.round.isSome then l.finished else l.finished ++ running
      running := if b'.round.isSome then running else []
      unasked := if running.isEmpty then l.unasked ++ b'.says else l.unasked }
  else
    { l with accepted := l.accepted ++ i.adds b.fresh, unasked := l.unasked ++ b'.says }

/-- A bot under observation. -/
def watch (p : Scheduler × CommandLog) (i : Input) : Scheduler × CommandLog :=
  (p.1.step i, p.2.note p.1 i (p.1.step i))

/-- A command that is over said what it says, or nothing, and then a warning names it. -/
def Execution.Settled (e : Execution) : Prop :=
  e.sent = e.command.line.toList ∨
    e.sent = [] ∧ ∃ message, e.command.failure message ∈ e.events

def Execution.said (e : Execution) : Command × List String := (e.command, e.sent)

/-- At most one command is running, and it has spoken once at most. -/
structure Fair (said : List (Command × List String)) : Prop where
  single : said.length ≤ 1
  once : ∀ e ∈ said, e.2 = [] ∨ e.2 = e.1.line.toList

/-! ### The order of a round -/

/-- The queue and the running commands at the begin of the code between two calls. -/
structure Turn where
  queue : List Command
  running : List Execution

def Turn.now (g : Turn) (s : Behaviors) : List Execution := g.running ++ taken g.queue s.commands

/-- The running commands as the observer sees them behind a call. -/
def Turn.noted (g : Turn) (made : Option GameCall) (s : Behaviors) : List Execution :=
  (g.now s).map (·.note made s)

/-- The code took at most one command, and only if none was running. -/
def Turn.InOrder (g : Turn) (s : Behaviors) : Prop :=
  s.commands = g.queue ∨ g.running = [] ∧ ∃ c, g.queue = c :: s.commands

/-- Commands speak once at most; without one only automation speaks. -/
def orders : Protocol Behaviors GameCall GameCall.Reply Failure Turn where
  call g c s := g.InOrder s ∧ Fair ((g.noted (some c) s).map (·.said)) ∧
    (g.now s = [] → c.message.isSome → Automatic s c)
  back _ _ _ _ _ := True
  next g c s _ s' := ⟨s'.commands, g.noted (some c) s⟩

/-- The end of every round. -/
structure Over (g : Turn) (s : Behaviors) : Prop where
  inOrder : g.InOrder s
  single : (g.now s).length ≤ 1
  settled : ∀ e ∈ g.noted none s, e.Settled

/-! ### Code that says nothing -/

/-- The task sends nothing and takes nothing from the queue. -/
abbrev Discreet {α : Type} (t : Code α) : Prop := t.Within Behaviors.commands NotChat

theorem Silent.discreet {α : Type} {t : Code α} (h : Silent t) : Discreet t :=
  h.mono (fun _ _ hs => congrArg Stock.commands hs) fun _ hc => hc

theorem InMenus.discreet {α : Type} {t : Code α} (h : InMenus t) : Discreet t := h.silent.discreet

/-- A round in order: its commands, each with what was said for it. -/
structure At (said : List (Command × List String)) (g : Turn) (s : Behaviors) : Prop where
  inOrder : g.InOrder s
  said : (g.now s).map (·.said) = said

variable {g : Turn} {s : Behaviors} {said : List (Command × List String)} {c : Command}

theorem At.of_commands {s' : Behaviors} (h : At said g s) (hs : s'.commands = s.commands) :
    At said g s' := by
  obtain ⟨hin, hsaid⟩ := h
  unfold Turn.InOrder at hin
  unfold Turn.now at hsaid
  rw [← hs] at hin hsaid
  exact ⟨hin, hsaid⟩

/-- What was said, with a further message of each running command. -/
def speak (message : Option String) (said : List (Command × List String)) :
    List (Command × List String) :=
  said.map fun e => (e.1, e.2 ++ message.toList)

@[simp] theorem speak_none (said : List (Command × List String)) : speak none said = said := by
  simp [speak]

@[simp] theorem speak_nil (message : Option String) : speak message [] = [] := rfl

@[simp] theorem speak_ready (message : Option String) (c : Command) :
    speak message [(c, [])] = [(c, message.toList)] := by
  simp [speak]

theorem said_noted (g : Turn) (made : Option GameCall) (s : Behaviors) :
    (g.noted made s).map (·.said) = speak (made.bind GameCall.message)
      ((g.now s).map (·.said)) := by
  simp [Turn.noted, speak, Execution.note, Execution.said]

theorem Turn.now_next (g : Turn) (call : GameCall) (s : Behaviors)
    (a : Except Failure call.Reply) (s' : Behaviors) :
    (orders.next g call s a s').now s' = g.noted (some call) s := by
  simp [orders, Turn.now, taken]

/-- A call that the commands so far permit, and what was said behind it. -/
theorem At.asks (h : At said g s) (call : GameCall) (hfair : Fair (speak call.message said))
    (hauto : said = [] → call.message.isSome → Automatic s call) :
    orders.call g call s ∧ ∀ a s', orders.back g call s a s' →
      At (speak call.message said) (orders.next g call s a s') s' := by
  have hnoted : (g.noted (some call) s).map (·.said) = speak call.message said := by
    rw [said_noted, h.said]
    rfl
  refine ⟨⟨h.inOrder, by rwa [hnoted], fun hnow => hauto ?_⟩, fun a s' _ => ⟨.inl rfl, ?_⟩⟩
  · rw [← h.said, hnow, List.map_nil]
  · rw [Turn.now_next, hnoted]

theorem message_of_notChat {call : GameCall} (h : NotChat call) : call.message = none := by
  cases call with
  | chat text => exact h.elim
  | _ => rfl

theorem Discreet.follows {α : Type} {t : Code α} (ht : Discreet t) (hfair : Fair said)
    (h : At said g s) : t.Follows orders (fun g _ s => At said g s) g s := by
  apply Within.follows ht (I := fun g s => At said g s) (fun g s s' hs hg => hg.of_commands hs) ?_ h
  intro g call s hcall hg
  have hnone := message_of_notChat hcall
  have hasks := hg.asks call (by rwa [hnone, speak_none]) (by simp [hnone])
  rwa [hnone, speak_none] at hasks

/-! ### Sending -/

/-- A message was sent, or refused before it was; an accepted one was sent. -/
structure Sent (text : String) (said : List (Command × List String)) (g : Turn)
    (r : Except Failure Unit) (s : Behaviors) : Prop where
  ok : r = .ok () → At (speak (some text) said) g s
  any : At said g s ∨ At (speak (some text) said) g s

theorem dispatch_sent {text : String} (automatic : Bool) (hfair : Fair said)
    (hspeak : Fair (speak (some text) said)) (hauto : said = [] → Automatic s (.chat text))
    (h : At said g s) : (dispatch text automatic).Follows orders (Sent text said) g s := by
  unfold dispatch
  split
  · have hemit := (emitting_inMenus (.warning AFK_BLOCK_MESSAGE)).discreet.follows hfair h
    apply hemit.bind
    · exact fun g _ s hg => ⟨nofun, .inl hg⟩
    · exact fun g e s hg => ⟨nofun, .inl hg⟩
  · obtain ⟨hcall, hback⟩ := h.asks (.chat text) hspeak fun hsaid _ => hauto hsaid
    apply follows_bind.mpr
    apply follows_perform.mpr
    refine ⟨hcall, fun a s' hb => ?_⟩
    have hsent := hback a s' hb
    cases a with
    | error e => exact ⟨nofun, .inr hsent⟩
    | ok a =>
        have hpaid : At (speak (some text) said) _ { s' with commandCredits :=
          s'.commandCredits - 1 } :=
          hsent.of_commands rfl
        cases automatic with
        | true => exact ⟨fun _ => hsent, .inr hsent⟩
        | false => exact ⟨fun _ => hpaid, .inr hpaid⟩

/-! ### Running a command -/

/-- A command that ran to its end said what it says; one that failed may have said it. -/
structure Tried (c : Command) (g : Turn) (r : Except Failure Unit) (s : Behaviors) : Prop where
  ok : r = .ok () → At [(c, c.line.toList)] g s
  any : At [(c, [])] g s ∨ At [(c, c.line.toList)] g s

theorem fair_nil : Fair [] := ⟨by simp, by simp⟩

theorem fair_ready (c : Command) : Fair [(c, [])] := ⟨by simp, by simp⟩

theorem fair_done (c : Command) : Fair [(c, c.line.toList)] := ⟨by simp, by simp⟩

theorem At.tried_error (h : At [(c, [])] g s) (e : Failure) : Tried c g (.error e) s :=
  ⟨nofun, .inl h⟩

theorem At.tried (h : At [(c, c.line.toList)] g s) (r : Except Failure Unit) : Tried c g r s :=
  ⟨fun _ => h, .inr h⟩

theorem dispatch_bind_tried {text : String} (hline : c.line = some text) {f : Unit → Code Unit}
    (hf : ∀ a, Discreet (f a)) (h : At [(c, [])] g s) :
    (dispatch text false >>= f).Follows orders (Tried c) g s := by
  have hspeak : speak (some text) [(c, [])] = [(c, c.line.toList)] := by rw [speak_ready, hline]
  have hsent := dispatch_sent false (fair_ready c) (by rw [hspeak]; exact fair_done c) (by simp) h
  apply hsent.bind
  · intro g a s hg
    have hdone := hg.ok rfl
    rw [hspeak] at hdone
    exact ((hf a).follows (fair_done c) hdone).mono fun g r s hg => hg.tried r
  · intro g e s hg
    have hany := hg.any
    rw [hspeak] at hany
    exact ⟨nofun, hany⟩

/-- Code in front of the message. -/
theorem Discreet.bind_tried {α : Type} {t : Code α} {f : α → Code Unit} (ht : Discreet t)
    (hf : ∀ g a s, At [(c, [])] g s → (f a).Follows orders (Tried c) g s) (h : At [(c, [])] g s) :
    (t >>= f).Follows orders (Tried c) g s :=
  (ht.follows (fair_ready c) h).bind hf fun _ e _ hg => hg.tried_error e

theorem typeCommand_tried {text : String} (hline : c.line = some text) (h : At [(c, [])] g s) :
    (typeCommand text).Follows orders (Tried c) g s := by
  have hnavigate : Discreet (.when (isNavigation text) (navigate text)) :=
    .when _ (navigate_silent text).discreet
  have hlog : Discreet (.when (isTeleportAnswer text) (.update scheduleSneak) >>=
      fun _ => emitting (.behaviorLog s!"Command dispatched: {text}")) :=
    .bind (.when _ (within_update.mpr fun _ => rfl)) fun _ => (emitting_inMenus _).discreet
  refine Discreet.bind_tried (within_update.mpr fun s => ?_) ?_ h
  · split <;> rfl
  intro g _ s hg
  apply hnavigate.bind_tried ?_ hg
  intro g _ s hg
  exact dispatch_bind_tried hline (fun _ => .bind (within_update.mpr fun _ => rfl) fun _ => hlog) hg

theorem runCommand_tried (h : At [(c, [])] g s) :
    (runCommand c).Follows orders (Tried c) g s := by
  have hclose (inventory : GameInventory) : Discreet
      (.when (inventory.containerSlots ≠ []) (await (.close inventory.menuId))) :=
    .when _ (within_perform.mpr trivial)
  apply (suspendSell_silent 5000).discreet.bind_tried ?_ h
  intro g _ s hg
  apply follows_read_bind.mpr
  apply follows_update_bind.mpr
  have hcleared : At [(c, [])] g { s with sell := none, foreground := none } := hg.of_commands rfl
  apply (openMenu_inMenus c.type).discreet.bind_tried ?_ hcleared
  intro g inventory s hg
  apply (hclose inventory).bind_tried ?_ hg
  intro g _ s hg
  apply follows_update_bind.mpr
  have hmanual : At [(c, [])] g { s with manualUntil := s.now + 5000 } := hg.of_commands rfl
  cases htype : c.type with
  | readSellMultipliers =>
      have hline : c.line = some "/sellmulti" := by simp [Command.line, htype]
      refine dispatch_bind_tried hline (fun _ => .bind within_read fun _ => .when _ ?_) hmanual
      exact (setForeground_inMenus _).discreet
  | cleanSpawner =>
      have hline : c.line = none := by simp [Command.line, htype]
      refine ((cleanSpawner_silent _ _).discreet.follows (fair_ready c) hmanual).mono ?_
      intro g r s hg
      refine At.tried ?_ r
      rwa [hline]
  | chat =>
      dsimp only
      split
      · rename_i text htext
        have hline : c.line = some text := by
          rw [Command.line, htype]
          exact htext
        exact typeCommand_tried hline hmanual
      · rename_i htext
        have hline : c.line = none := by
          rw [Command.line, htype]
          exact htext
        refine At.tried ?_ _
        rwa [hline]

/-! ### A tick -/

theorem At.single (h : At said g s) (hsaid : said.length ≤ 1) : (g.now s).length ≤ 1 := by
  rw [← h.said, List.length_map] at hsaid
  exact hsaid

/-- The only command of a round that is over. -/
theorem At.over_of {sent : List String} (h : At [(c, sent)] g s)
    (hsettled : ∀ events, (⟨c, sent, s.outbox ++ events⟩ : Execution).Settled) : Over g s := by
  refine ⟨h.inOrder, h.single (by simp), ?_⟩
  obtain ⟨e, hnow, hsaid⟩ := List.map_eq_singleton_iff.mp h.said
  obtain ⟨command, sent', events⟩ := e
  obtain ⟨rfl, rfl⟩ : command = c ∧ sent' = sent := by simpa [Execution.said] using hsaid
  simpa [Turn.noted, hnow, Execution.note] using hsettled events

theorem At.over_done (h : At [(c, c.line.toList)] g s) : Over g s := h.over_of fun _ => .inl rfl

theorem At.over_nil (h : At [] g s) : Over g s := by
  refine ⟨h.inOrder, h.single (by simp), ?_⟩
  have hnow : g.now s = [] := by simpa using h.said
  simp [Turn.noted, hnow]

/-- The warning about an error is the last thing a round does. -/
theorem tried_caught (h : At [(c, [])] g s) : ((runCommand c).orCatch fun error =>
    emitting (c.failure error.message)).Follows orders (fun g _ s => Over g s) g s := by
  apply (runCommand_tried h).orCatch
  · exact fun g a s hg => (hg.ok rfl).over_done
  · intro g e s hg
    apply follows_update.mpr
    obtain hready | hdone := hg.any
    · have hwarned : At [(c, [])] g (s.emit (c.failure e.message)) := hready.of_commands rfl
      exact hwarned.over_of fun events => .inr ⟨rfl, e.message, by simp [emit]⟩
    · have hwarned : At [(c, c.line.toList)] g (s.emit (c.failure e.message)) :=
        hdone.of_commands rfl
      exact hwarned.over_done

/-- No command has left the queue. -/
theorem At.idle (h : At [] g s) : g.running = [] ∧ s.commands = g.queue := by
  have hnow : g.running = [] ∧ taken g.queue s.commands = [] := by
    simpa [Turn.now] using h.said
  refine ⟨hnow.1, ?_⟩
  obtain hsame | ⟨-, c, hqueue⟩ := h.inOrder
  · exact hsame
  · simp [taken, hqueue] at hnow

theorem takeCommand_over {rest : List Command} (now : ℤ) (hs : s.commands = c :: rest)
    (h : At [] g s) : (takeCommand c now).Follows orders (fun g _ s => Over g s) g s := by
  obtain ⟨hrunning, hqueue⟩ := h.idle
  -- Nothing can change the queue before the command is taken from it.
  have hready : (creditReady now).Follows orders
    (fun g' _ s' => g' = g ∧ s'.commands = s.commands) g s := by
    refine ⟨rfl, ?_⟩
    simp only [earnCredits]
    split_ifs <;> rfl
  apply hready.bind
  · rintro g ready s' ⟨rfl, hsame⟩
    have hfree : At [] g s' := h.of_commands hsame
    cases ready with
    | false => exact hfree.over_nil
    | true =>
        apply follows_update_bind.mpr
        apply tried_caught
        have hcons : g.queue = c :: s'.commands.tail := by rw [← hqueue, hsame, hs, List.tail_cons]
        refine ⟨.inr ⟨hrunning, c, hcons⟩, ?_⟩
        simp [Turn.now, hrunning, hcons, taken, Execution.said]
  · rintro g e s' ⟨rfl, hsame⟩
    exact (h.of_commands hsame).over_nil

/-- Code of a round that takes no command. -/
abbrev Serves {α : Type} (t : Code α) (g : Turn) (s : Behaviors) : Prop :=
  t.Follows orders (fun g _ s => At [] g s) g s

theorem Discreet.serves {α : Type} {t : Code α} (ht : Discreet t) (h : At [] g s) : Serves t g s :=
  ht.follows fair_nil h

theorem Serves.bind {α β : Type} {t : Code α} {f : α → Code β} (ht : Serves t g s)
    (hf : ∀ g a s, At [] g s → Serves (f a) g s) : Serves (t >>= f) g s :=
  Follows.bind ht hf fun _ _ _ hg => hg

theorem Serves.orCatch {α : Type} {t : Code α} {handler : Failure → Code α} (ht : Serves t g s)
    (hh : ∀ g e s, At [] g s → Serves (handler e) g s) : Serves (t.orCatch handler) g s :=
  Follows.orCatch ht (fun _ _ _ hg => hg) hh

theorem dispatch_serves {text : String} (automatic : Bool) (hauto : Automatic s (.chat text))
    (h : At [] g s) : Serves (dispatch text automatic) g s :=
  (dispatch_sent automatic fair_nil fair_nil (fun _ => hauto) h).mono fun _ _ _ hg =>
    hg.any.elim id id

theorem returnHome_serves (now : ℤ) (hreturning : s.returningHome = true) (h : At [] g s) :
    Serves (returnHome now) g s := by
  apply follows_update_bind.mpr
  apply follows_read_bind.mpr
  refine Serves.orCatch ?_ ?_
  · refine Serves.bind (dispatch_serves false (.inr ⟨hreturning, rfl⟩) (h.of_commands rfl)) ?_
    exact fun g _ s hg => hg.of_commands rfl
  · intro g e s hg
    apply follows_update.mpr
    split
    · exact hg.of_commands rfl
    · exact hg

theorem startSale_serves (generation : ℕ) (now : ℤ) (h : At [] g s) :
    Serves (startSale generation now) g s := by
  apply follows_read_bind.mpr
  apply follows_update_bind.mpr
  refine Serves.bind (Serves.orCatch ?_ ?_) ?_
  · exact dispatch_serves true (.inl ⟨rfl, rfl⟩) (h.of_commands rfl)
  · intro g e s hg
    apply Discreet.serves (.bind (within_update.mpr fun t => ?_) fun _ => within_fail e) hg
    split <;> rfl
  · intro g _ s hg
    exact Discreet.serves (.bind within_read fun t => .when _ (within_update.mpr fun t => rfl)) hg

theorem tickSell_serves (now : ℤ) (h : At [] g s) : Serves (tickSell now) g s := by
  apply follows_read_bind.mpr
  apply follows_when.mpr
  split
  · have hinventory : Discreet (await .inventory) := within_perform.mpr trivial
    apply (hinventory.serves h).bind
    intro g inventory s hg
    apply follows_read_bind.mpr
    apply follows_when.mpr
    split
    · split
      · exact (continueSale_inMenus _ _ _).discreet.serves hg
      · split
        · refine Discreet.serves (.when _ (.bind (within_perform.mpr ?_) fun _ => ?_)) hg
          · trivial
          · exact within_update.mpr fun _ => rfl
        · apply follows_when.mpr
          split
          · exact startSale_serves _ _ hg
          · exact hg
    · exact hg
  · exact h

theorem returningHome_earnCredits (s : Behaviors) (now : ℤ) :
    (s.earnCredits now).returningHome = s.returningHome :=
  congrArg Gate.returningHome (gate_earnCredits s now)

theorem tickAutomation_serves (now : ℤ) (h : At [] g s) : Serves (tickAutomation now) g s := by
  apply follows_read_bind.mpr
  split
  · exact cancelSell_inMenus.discreet.serves h
  split
  · exact h
  split
  · exact (tickForeground_inMenus now).discreet.serves h
  split
  · rename_i hreturning
    apply follows_when.mpr
    split
    · have hearned : At [] g (s.earnCredits now) := h.of_commands (by
        simp only [earnCredits]
        split_ifs <;> rfl)
      apply follows_bind.mpr
      apply follows_update_bind.mpr
      apply follows_read_bind.mpr
      apply follows_when.mpr
      split
      · exact returnHome_serves now ((returningHome_earnCredits s now).trans hreturning) hearned
      · exact hearned
    · exact h
  · apply follows_when.mpr
    split
    · exact tickSell_serves now h
    · exact h

theorem Serves.ends {t : Code Unit} (h : Serves t g s) :
    t.Follows orders (fun g _ s => Over g s) g s :=
  h.mono fun _ _ _ hg => hg.over_nil

theorem Discreet.bind_over {α : Type} {t : Code α} {f : α → Code Unit} (ht : Discreet t)
    (hf : ∀ g a s, At [] g s → (f a).Follows orders (fun g _ s => Over g s) g s) (h : At [] g s) :
    (t >>= f).Follows orders (fun g _ s => Over g s) g s :=
  Follows.bind (ht.serves h) hf fun _ _ _ hg => hg.over_nil

theorem tickTasks_over (now : ℤ) (h : At [] g s) :
    (tickTasks now).Follows orders (fun g _ s => Over g s) g s := by
  apply settleSavedHome_silent.discreet.bind_over ?_ h
  intro g _ s hg
  apply follows_read_bind.mpr
  apply follows_when.mpr
  split
  · apply (reassertSneak_silent now).discreet.bind_over ?_ hg
    intro g _ s hg
    apply follows_read_bind.mpr
    split
    · rename_i command rest hs
      exact takeCommand_over now hs hg
    · exact (tickAutomation_serves now hg).ends
  · exact hg.over_nil

theorem tick_over (h : At [] g s) : tick.Follows orders (fun g _ s => Over g s) g s := by
  apply follows_read_bind.mpr
  apply follows_when.mpr
  split
  · exact settleHomeGate_silent.discreet.bind_over (fun g _ s hg => tickTasks_over _ hg) h
  · exact h.over_nil

/-! ### Steps -/

/-- What a run shows of its commands. -/
structure Served (b : Scheduler) (l : CommandLog) : Prop where
  /-- The queue holds what was accepted and did not leave it yet, in this order. -/
  order : l.accepted = (l.finished ++ l.running).map (·.command) ++ b.vars.commands
  room : b.vars.commands.length ≤ 32
  distinct : b.vars.commands.Nodup
  finished : ∀ e ∈ l.finished, e.Settled
  running : Fair (l.running.map (·.said))
  unasked : ∀ w ∈ l.unasked, Automatic w.asked w.call

/-- What is known of the tasks that wait for the game. -/
structure Waits (b : Scheduler) (l : CommandLog) : Prop where
  resting : b.round = none → l.running = []
  round : ∀ w ∈ b.round, ∃ g : Turn, w.Follows orders (fun g _ s => Over g s) g ∧
    l.running = g.noted (some w.call) w.asked
  spawns : ∀ w ∈ b.spawns, NotChat w.call ∧ ∀ a, Silent (w.next a)

theorem enqueue_commands (s : Behaviors) (type : CommandType) (text : Option String) :
    (s.enqueue type text).commands = s.commands ∨
      (s.enqueue type text).commands = s.commands ++ [⟨type, text⟩] ∧
        s.commands.length < 32 ∧ ⟨type, text⟩ ∉ s.commands := by
  simp only [enqueue]
  generalize (if type = .chat then text.filter (· ≠ "") else none) = chatText
  split_ifs with hqueued hrecent hfull hsilent
  · exact .inl rfl
  · exact .inl rfl
  · exact .inl rfl
  · exact .inl rfl
  · refine .inr ⟨rfl, by omega, fun hmem => hqueued ?_⟩
    exact List.any_eq_true.mpr ⟨_, hmem, by simp⟩

theorem method_adds {i : Input} {f : Behaviors → Behaviors} (h : i.method = some f)
    (s : Behaviors) :
    (f s).commands = s.commands ++ i.adds s ∧ i.ofRound = false := by
  cases i with
  | chat sender message =>
      obtain rfl : (fun s => s.onChat sender message) = f := by simpa [Input.method] using h
      have hsame : (s.onChat sender message).commands = s.commands :=
        congrArg Stock.commands (stock_onChat s sender message)
      simp [Input.adds, Input.ofRound, hsame]
  | enqueue type text =>
      obtain rfl : (fun s => s.enqueue type text) = f := by simpa [Input.method] using h
      refine ⟨?_, rfl⟩
      unfold Input.adds
      obtain hsame | ⟨hadded, -, -⟩ := enqueue_commands s type text
      · simp [hsame]
      · simp [hadded]
  | checkSneak =>
      obtain rfl : Behaviors.checkSneak = f := by simpa [Input.method] using h
      refine ⟨?_, rfl⟩
      unfold Behaviors.checkSneak
      split <;> simp [Input.adds]
  | pause afterMs resumeMs =>
      obtain rfl : (fun s => s.pause afterMs resumeMs) = f := by simpa [Input.method] using h
      refine ⟨?_, rfl⟩
      simp only [pause]
      split <;> simp [Input.adds]
  | joining =>
      obtain rfl : Behaviors.joining = f := by simpa [Input.method] using h
      simp [Input.adds, Input.ofRound, Behaviors.joining, resetTasks]
  | transition =>
      obtain rfl : Behaviors.transition = f := by simpa [Input.method] using h
      simp [Input.adds, Input.ofRound, Behaviors.transition, resetTasks, scheduleSneak]
  | clock now =>
      obtain rfl : (fun s : Behaviors => { s with now := now }) = f :=
        by simpa [Input.method] using h
      simp [Input.adds, Input.ofRound]
  | _ => simp [Input.method] at h

@[simp] theorem taken_self (commands : List Command) : taken commands commands = [] := by
  simp [taken]

theorem Execution.note_none {e : Execution} {s : Behaviors} (h : s.outbox = []) :
    e.note none s = e := by
  simp [note, h]

/-- A command is added only where it has room and is not queued already. -/
theorem Served.add {b b' : Scheduler} {l : CommandLog} (h : Served b l) {i : Input}
    (hcommands : b'.vars.commands = b.vars.commands ++ i.adds b.fresh) :
    Served b' { l with accepted := l.accepted ++ i.adds b.fresh } := by
  have hadds : i.adds b.fresh = [] ∨ ∃ c, i.adds b.fresh = [c] ∧
      b.vars.commands.length < 32 ∧ c ∉ b.vars.commands := by
    cases i with
    | enqueue type text =>
        unfold Input.adds
        obtain hsame | ⟨hadded, hroom, hnew⟩ := enqueue_commands b.fresh type text
        · simp [hsame]
        · have hroom' : b.vars.commands.length < 32 := hroom
          have hnew' : ⟨type, text⟩ ∉ b.vars.commands := hnew
          simp [hadded, hroom', hnew']
    | _ => exact .inl rfl
  refine ⟨?_, ?_, ?_, h.finished, h.running, h.unasked⟩
  · rw [hcommands, h.order, List.append_assoc]
  · have hlength := h.room
    obtain hnone | ⟨c, hone, hroom, -⟩ := hadds
    · simpa [hcommands, hnone] using hlength
    · rw [hcommands, hone, List.length_append, List.length_singleton]
      omega
  · obtain hnone | ⟨c, hone, -, hnew⟩ := hadds
    · simpa [hcommands, hnone] using h.distinct
    · rw [hcommands, hone]
      exact h.distinct.append (List.nodup_singleton c) (by simpa using hnew)

/-- A command leaves the queue only to run. -/
theorem Turn.InOrder.conserve {g : Turn} {s : Behaviors} (h : g.InOrder s) :
    (g.now s).map (·.command) ++ s.commands = g.running.map (·.command) ++ g.queue := by
  obtain hsame | ⟨hrunning, c, hqueue⟩ := h
  · simp [Turn.now, hsame]
  · simp [Turn.now, hrunning, hqueue, taken]

theorem Turn.InOrder.suffix {g : Turn} {s : Behaviors} (h : g.InOrder s) :
    s.commands <:+ g.queue := by
  obtain hsame | ⟨-, c, hqueue⟩ := h
  · exact hsame ▸ List.suffix_rfl
  · exact hqueue ▸ List.suffix_cons c s.commands

theorem command_noted (g : Turn) (made : Option GameCall) (s : Behaviors) :
    (g.noted made s).map (·.command) = (g.now s).map (·.command) := by
  simp [Turn.noted, Execution.note]

/-- The code that a round begins or goes on with. -/
theorem Scheduler.Begins.follows {b : Scheduler} {l : CommandLog} (hw : Waits b l) {i : Input}
    {t : Code Unit} (ht : b.Begins i t) : i.ofRound = true ∧
      t.Follows orders (fun g _ s => Over g s) ⟨b.vars.commands, l.running⟩ b.fresh := by
  have hfree (hround : b.round = none) : At [] ⟨b.vars.commands, l.running⟩ b.fresh := by
    refine ⟨.inl rfl, ?_⟩
    simp [Turn.now, hw.resting hround, Scheduler.fresh]
  cases ht with
  | tick hround => exact ⟨rfl, tick_over (hfree hround)⟩
  | configure hround config =>
      exact ⟨rfl, ((configure_silent config).discreet.serves (hfree hround)).ends⟩
  | @answer w hround answers =>
      obtain ⟨g, hfollows, hrunning⟩ := hw.round w hround
      refine ⟨rfl, ?_⟩
      rw [hrunning]
      exact hfollows.2 (answers w.call) b.fresh trivial

theorem step_method {b : Scheduler} {i : Input} {f : Behaviors → Behaviors}
    (h : i.method = some f) :
    b.step i = ⟨f b.fresh, b.round, b.spawns, none⟩ := by
  cases i with
  | configure | spawned | tick | answer => simp [Input.method] at h
  | joining | transition | checkSneak | pause | enqueue | chat | clock =>
      obtain rfl := Option.some.inj h
      rfl

theorem adds_of_method_none {i : Input} (h : i.method = none) (s : Behaviors) : i.adds s = [] := by
  cases i with
  | enqueue type text => simp [Input.method] at h
  | _ => rfl

/-- A step in which the queue stays as it is, and nothing runs. -/
theorem Served.still {b b' : Scheduler} {l : CommandLog} (h : Served b l)
    (hcommands : b'.vars.commands = b.vars.commands) : Served b' l := by
  refine ⟨?_, ?_, ?_, h.finished, h.running, h.unasked⟩
  · rw [hcommands]
    exact h.order
  · rw [hcommands]
    exact h.room
  · rw [hcommands]
    exact h.distinct

/-- Nothing of the round goes on. -/
theorem note_still {b : Scheduler} {l : CommandLog} (hw : Waits b l) {i : Input}
    (hadds : i.adds b.fresh = []) : l.note b i ⟨b.fresh, b.round, b.spawns, none⟩ = l := by
  have hrunning : (l.running ++ taken b.vars.commands b.fresh.commands).map (·.note none b.fresh) =
      l.running := by
    have hsame : b.fresh.commands = b.vars.commands := rfl
    rw [hsame, taken_self, List.append_nil]
    exact List.map_id'' (fun e => Execution.note_none rfl) _
  unfold CommandLog.note
  split
  · simp only [Option.map_none, hrunning, Scheduler.says]
    cases hround : b.round with
    | none =>
        have hresting := hw.resting hround
        obtain ⟨accepted, finished, running, unasked⟩ := l
        simpa using hresting.symm
    | some w => simp
  · simp [hadds, Scheduler.says]

theorem note_beside {b b' : Scheduler} {l : CommandLog} {i : Input} (hround : i.ofRound = false)
    (hadds : i.adds b.fresh = []) (hmade : ∀ w ∈ b'.made, NotChat w.call) : l.note b i b' = l := by
  have hsays : b'.says = [] := by
    refine List.filter_eq_nil_iff.mpr fun w hw => ?_
    simp [message_of_notChat (hmade w (by simpa using hw))]
  simp [CommandLog.note, hround, hadds, hsays]

theorem Served.order_noted {b : Scheduler} {l : CommandLog} (h : Served b l) {s : Behaviors}
    (hin : Turn.InOrder ⟨b.vars.commands, l.running⟩ s) (made : Option GameCall) :
    l.accepted = (l.finished ++ Turn.noted ⟨b.vars.commands, l.running⟩ made s).map (·.command) ++
      s.commands := by
  rw [List.map_append, command_noted, List.append_assoc, hin.conserve, ← List.append_assoc,
    ← List.map_append]
  exact h.order

/-- The code of a round runs to its end. -/
theorem round_over {b : Scheduler} {l : CommandLog} (h : Served b l) (hw : Waits b l) {i : Input}
    (hround : i.ofRound = true) {s : Behaviors} (hover : Over ⟨b.vars.commands, l.running⟩ s) :
    Served ⟨s, none, b.spawns, none⟩ (l.note b i ⟨s, none, b.spawns, none⟩) ∧
      Waits ⟨s, none, b.spawns, none⟩ (l.note b i ⟨s, none, b.spawns, none⟩) := by
  have hnote : l.note b i ⟨s, none, b.spawns, none⟩ =
      { l with
        finished := l.finished ++ Turn.noted ⟨b.vars.commands, l.running⟩ none s
        running := [] } := by
    simp [CommandLog.note, hround, Scheduler.says, Turn.noted, Turn.now]
  have hsuffix := hover.inOrder.suffix
  rw [hnote]
  constructor
  · refine ⟨?_, hsuffix.length_le.trans h.room, h.distinct.sublist hsuffix.sublist, ?_, fair_nil,
      h.unasked⟩
    · simpa using h.order_noted hover.inOrder none
    · intro e he
      obtain hold | hnew := List.mem_append.mp he
      · exact h.finished e hold
      · exact hover.settled e hnew
  · exact ⟨fun _ => rfl, by simp, hw.spawns⟩

/-- The code of a round runs up to a call. -/
theorem round_waits {b : Scheduler} {l : CommandLog} (h : Served b l) (hw : Waits b l) {i : Input}
    (hround : i.ofRound = true) {w : Waiting}
    (hfollows : w.Follows orders (fun g _ s => Over g s) ⟨b.vars.commands, l.running⟩) :
    Served ⟨w.asked, some w, b.spawns, some w⟩ (l.note b i ⟨w.asked, some w, b.spawns, some w⟩) ∧
      Waits ⟨w.asked, some w, b.spawns, some w⟩
        (l.note b i ⟨w.asked, some w, b.spawns, some w⟩) := by
  set g : Turn := ⟨b.vars.commands, l.running⟩ with hg
  obtain ⟨hin, hfair, hauto⟩ := hfollows.1
  have hsays : ∀ v ∈ Scheduler.says ⟨w.asked, some w, b.spawns, some w⟩,
      v = w ∧ w.call.message.isSome := by
    intro v hv
    obtain ⟨hmem, hmessage⟩ := List.mem_filter.mp hv
    obtain rfl : v = w := by simpa using hmem
    exact ⟨rfl, hmessage⟩
  -- Only a round without a command adds to the messages nobody asked for.
  have hunasked : ∀ v ∈ (l.note b i ⟨w.asked, some w, b.spawns, some w⟩).unasked,
      Automatic v.asked v.call := by
    intro v hv
    simp only [CommandLog.note, hround, if_true, Option.map_some] at hv
    split at hv
    · rename_i hempty
      obtain hold | hnew := List.mem_append.mp hv
      · exact h.unasked v hold
      · obtain ⟨rfl, hmessage⟩ := hsays v hnew
        have hnow : g.now v.asked = [] := by simpa [Turn.now, hg] using hempty
        exact hauto hnow hmessage
    · exact h.unasked v hv
  generalize heq : (l.note b i ⟨w.asked, some w, b.spawns, some w⟩).unasked = unasked
    at hunasked
  have hnote : l.note b i ⟨w.asked, some w, b.spawns, some w⟩ =
      { l with running := g.noted (some w.call) w.asked, unasked := unasked } := by
    rw [← heq]
    simp [CommandLog.note, hround, Turn.noted, Turn.now, hg]
  have hsuffix := hin.suffix
  rw [hnote]
  constructor
  · exact ⟨h.order_noted hin _, hsuffix.length_le.trans h.room, h.distinct.sublist hsuffix.sublist,
      h.finished, hfair, hunasked⟩
  · refine ⟨nofun, fun v hv => ?_, hw.spawns⟩
    obtain rfl : w = v := by simpa using hv
    exact ⟨g, hfollows, rfl⟩

/-- What a step leaves of the order of commands. -/
theorem step_served {b : Scheduler} {l : CommandLog} (h : Served b l) (hw : Waits b l) (i : Input) :
    Served (b.step i) (l.note b i (b.step i)) ∧ Waits (b.step i) (l.note b i (b.step i)) := by
  cases hmethod : i.method with
  | some f =>
      obtain ⟨hcommands, hround⟩ := method_adds hmethod b.fresh
      have hnote : l.note b i ⟨f b.fresh, b.round, b.spawns, none⟩ =
          { l with accepted := l.accepted ++ i.adds b.fresh } := by
        simp [CommandLog.note, hround, Scheduler.says]
      rw [step_method hmethod, hnote]
      exact ⟨h.add hcommands, hw.resting, hw.round, hw.spawns⟩
  | none =>
      have hadds := adds_of_method_none hmethod b.fresh
      have hmoves := b.step_moves i
      generalize b.step i = b' at hmoves
      cases hmoves with
      | none =>
          rw [note_still hw hadds]
          exact ⟨h.still rfl, hw.resting, hw.round, hw.spawns⟩
      | @method f hf => simp [hmethod] at hf
      | @round t ht =>
          obtain ⟨hround, hfollows⟩ := ht.follows hw
          obtain ⟨hnone, -, hover⟩ | ⟨w, hsome, -, hasked, hfollows⟩ := runCode_follows hfollows
          · rw [hnone]
            exact round_over h hw hround hover
          · rw [hsome, ← hasked]
            exact round_waits h hw hround hfollows
      | @beside t spawns ht =>
          have hround : i.ofRound = false := by cases ht <;> rfl
          have hsilent : Silent t ∧ ∀ w ∈ spawns, NotChat w.call ∧ ∀ a, Silent (w.next a) := by
            cases ht with
            | spawned => exact ⟨spawned_silent, hw.spawns⟩
            | @answer w k hk answers =>
                have hspawn := hw.spawns w (List.mem_of_getElem? hk)
                exact ⟨hspawn.2 _, fun v hv => hw.spawns v (List.mem_of_mem_eraseIdx hv)⟩
          obtain ⟨hstock, hmade⟩ := runCode_within hsilent.1 b.fresh
          rw [note_beside hround hadds fun w hw' => (hmade w hw').1]
          refine ⟨h.still (congrArg Stock.commands hstock), hw.resting, hw.round, fun w hw' => ?_⟩
          obtain hnew | hold := List.mem_append.mp hw'
          · exact hmade w (by simpa using hnew)
          · exact hsilent.2 w hold

/-! ### Every run -/

/-- Whatever the order of enqueued commands, ticks, answers of the game, settings, chat
messages and entries into a world: the commands leave the queue in the order in which it
accepted them, the running one included, and all others are still queued; each of them says
at most what it says, and only once; a command that is over said it, or a warning names it;
other chat messages come from automation; and the queue holds 32 different commands at most. -/
theorem commands_served (config : BehaviorConfig) (game : GameGateway)
    (letterOrNumber : Char → Bool) (is : List Input) :
    Along watch (fun p => Served p.1 p.2) (.init config game letterOrNumber, {}) is := by
  have hserved : Served (.init config game letterOrNumber) {} :=
    ⟨rfl, by simp [Scheduler.init, init], List.nodup_nil, by simp, fair_nil, by simp⟩
  have hwaits : Waits (.init config game letterOrNumber) {} :=
    ⟨fun _ => rfl, by simp [Scheduler.init], by simp [Scheduler.init]⟩
  have hrun : Along watch (fun p => Served p.1 p.2 ∧ Waits p.1 p.2)
      (.init config game letterOrNumber, {}) is :=
    along_of_invariant (fun p i hp => step_served hp.1 hp.2 i) ⟨hserved, hwaits⟩ is
  exact hrun.mono fun p hp => hp.1

end Behaviors

end AfkClient
